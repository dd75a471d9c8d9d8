import EvidencePages.Proofs.Ewf.Opening
import EvidencePages.Proofs.Zlib.Extension

/-!
# What a table entry decodes to

A chunk is decoded for the number that its entry has in the chunk table. Where
that is the chunk's own number the result is the chunk. Where it is another
one, the result depends on the length that is wanted there.
-/

set_option autoImplicit false

namespace EvidencePages.Ewf.Acquisition

variable {a : Acquisition} {store : FileStore}

/-! ## Entries of a table -/

variable (a) in
def entriesBefore (cuts : List Cut) (part : Nat) : Nat := totalOf ((cuts.take part).map a.keptOf)

theorem length_located (part segment count : Nat) :
    (a.located part segment count).length = count := by
  rw [located, List.length_map, List.length_range]

theorem length_tableFrom (part : Nat) (cuts : List Cut) :
    (a.tableFrom part cuts).length = totalOf (cuts.map a.keptOf) := by
  induction cuts generalizing part with
  | nil => rfl
  | cons cut rest ih =>
    rw [tableFrom, List.length_append, length_located, ih, List.map_cons, totalOf]

theorem getElem?_tableFrom {cuts : List Cut} {index : Nat} {cut : Cut}
    (found : cuts[index]? = some cut) {place : Nat} (known : place < a.keptOf cut) (part : Nat) :
    (a.tableFrom part cuts)[a.entriesBefore cuts index + place]? =
      some (a.location (part + index) cut.segment (a.keptOf cut) place) := by
  induction cuts generalizing index part with
  | nil => cases found
  | cons first rest ih =>
    have length := length_located (a := a) part first.segment (a.keptOf first)
    cases index with
    | zero =>
      obtain rfl : first = cut := Option.some.inj found
      have none : a.entriesBefore (first :: rest) 0 = 0 := rfl
      rw [none, Nat.zero_add, tableFrom, List.getElem?_append_left (by rw [length]; exact known),
        located, List.getElem?_map, List.getElem?_range known]
      rfl
    | succ index =>
      have before : a.entriesBefore (first :: rest) (index + 1) =
          a.keptOf first + a.entriesBefore rest index := by
        rw [entriesBefore, List.take_succ_cons, List.map_cons, totalOf]
        rfl
      rw [tableFrom, before, Nat.add_assoc, List.getElem?_append_right (by omega), length,
        Nat.add_sub_cancel_left, ih found (part + 1), Nat.add_right_comm part 1 index]
      rfl

theorem exists_place {cuts : List Cut} {index : Nat}
    (inside : index < totalOf (cuts.map a.keptOf)) :
    ∃ part cut place, cuts[part]? = some cut ∧ place < a.keptOf cut ∧
      index = a.entriesBefore cuts part + place := by
  induction cuts generalizing index with
  | nil => cases inside
  | cons first rest ih =>
    rw [List.map_cons, totalOf] at inside
    by_cases own : index < a.keptOf first
    · exact ⟨0, first, index, rfl, own, (Nat.zero_add _).symm⟩
    · have later : index - a.keptOf first < totalOf (rest.map a.keptOf) := by omega
      obtain ⟨part, cut, place, found, known, same⟩ := ih later
      refine ⟨part + 1, cut, place, found, known, ?_⟩
      rw [entriesBefore, List.take_succ_cons, List.map_cons, totalOf]
      rw [entriesBefore] at same
      omega

/-! ## Decoding a place -/

variable (a) in
/-- What the place of a chunk in a cut segment gives where `expected` bytes are wanted. -/
def taken (cut : Cut) (place expected : Nat) : Option ByteArray :=
  let index := a.firstChunk cut.segment + place
  if isCompressed index then
    if expected ≤ (a.chunk index).size then some (slice (a.chunk index) 0 expected) else none
  else if a.start cut.segment place + expected ≤ cut.length then
    some (slice (a.segmentFile cut.segment) (a.start cut.segment place) expected)
  else none

theorem sectorsStop_le_of_known {cut : Cut} {place : Nat} (known : place < a.keptOf cut) :
    a.sectorsStop cut.segment ≤ cut.length := by
  have offset : a.entriesOffset cut.segment =
    a.sectorsStop cut.segment + Descriptor.length + Table.headerLength := rfl
  rw [keptOf, kept, Table.entryLength] at known
  omega

theorem stop_bounds {cut : Cut} {place : Nat} (known : place < a.keptOf cut) :
    a.start cut.segment (place + 1) ≤ (if place + 1 < a.keptOf cut then
        a.start cut.segment (place + 1) else a.sectorsStop cut.segment) ∧
      (if place + 1 < a.keptOf cut then
        a.start cut.segment (place + 1) else a.sectorsStop cut.segment) ≤
        a.sectorsStop cut.segment := by
  have le : a.start cut.segment (place + 1) ≤ a.sectorsStop cut.segment :=
    start_le_start (Nat.lt_of_lt_of_le known (kept_le _ _))
  split
  · exact ⟨Nat.le_refl _, le⟩
  · exact ⟨le, Nat.le_refl _⟩

theorem not_doublesOver_volume : Reader.doublesOver a.volume = false := by
  have bound := chunkSize_lt (a := a)
  rw [Nat.one_shiftLeft] at bound
  rw [Reader.doublesOver, toNat_volume_chunkSize, UInt64.size]
  exact decide_eq_false (by omega)

theorem decodeChunk_location (inflates : ∀ data, Zlib.decode? (a.deflate data) = some data)
    {cut : Cut} {id : Nat} (keeping : Keeping store id (a.segmentFile cut.segment) cut.length)
    {place : Nat} (known : place < a.keptOf cut) (part index : Nat) {expected : Nat}
    (wanted : expected ≤ a.chunkSize) (data : ByteArray) :
    Reader.decodeChunk store (.file id) a.volume cut.length index
        (a.location part cut.segment (a.keptOf cut) place) expected = .ok data ↔
      a.taken cut place expected = some data := by
  obtain ⟨after, inner⟩ := stop_bounds known
  have there := sectorsStop_le_of_known known
  have held : place < a.held cut.segment := Nat.lt_of_lt_of_le known (kept_le _ _)
  have before := start_lt_start_succ inflates cut.segment place
  have small := Nat.lt_of_le_of_lt keeping.length_le keeping.small
  have chunk := chunkSize_lt (a := a)
  have limit : FileStore.offsetLimit = 1 <<< 63 := rfl
  have buffer : bufferLimit = 1 <<< 63 := rfl
  rw [Nat.one_shiftLeft] at small chunk limit buffer
  have offset : (a.location part cut.segment (a.keptOf cut) place).offset.toNat =
      a.start cut.segment place := by
    rw [location, UInt64.toNat_ofNat', Nat.mod_eq_of_lt (by omega)]
  have compressed : (a.location part cut.segment (a.keptOf cut) place).compressed =
    isCompressed (a.firstChunk cut.segment + place) := rfl
  have inside : ¬ cut.length ≤ a.start cut.segment place := by omega
  have narrow : ¬ bufferLimit ≤ expected := by omega
  unfold Reader.decodeChunk taken
  dsimp only
  rw [offset, compressed, if_neg inside]
  -- A compressed chunk needs its whole stream, any other the wanted bytes alone.
  by_cases deflated : isCompressed (a.firstChunk cut.segment + place)
  · have stored : a.stored (a.firstChunk cut.segment + place) =
      a.deflate (a.chunk (a.firstChunk cut.segment + place)) := if_pos deflated
    have length : Reader.storedLength a.volume
        (a.location part cut.segment (a.keptOf cut) place)
        (cut.length - a.start cut.segment place) =
          (if place + 1 < a.keptOf cut then a.start cut.segment (place + 1)
            else a.sectorsStop cut.segment) - a.start cut.segment place := by
      rw [Reader.storedLength, location, Option.getD_some, UInt64.toNat_ofNat',
        Nat.mod_eq_of_lt (by omega)]
      omega
    rw [if_pos deflated, if_pos deflated, not_doublesOver_volume, if_neg Bool.false_ne_true, length]
    generalize (if place + 1 < a.keptOf cut then a.start cut.segment (place + 1)
      else a.sectorsStop cut.segment) = stop at after inner
    rw [keeping.readBytes (by omega), Nat.min_eq_left (by omega), slice_room held after, stored]
    dsimp only
    rw [if_neg narrow, Zlib.decode?_append (inflates _)]
    dsimp only
    by_cases short : (a.chunk (a.firstChunk cut.segment + place)).size < expected
    · rw [if_pos short, if_neg (Nat.not_le_of_lt short)]
      simp
    · rw [if_neg short, if_pos (Nat.not_lt.mp short), Except.ok.injEq, Option.some.injEq]
  · rw [if_neg deflated, if_neg deflated, if_neg narrow, keeping.readBytes (by omega)]
    dsimp only
    have file := keeping.length_le
    rw [size_slice]
    by_cases whole : a.start cut.segment place + expected ≤ cut.length
    · rw [if_neg (by omega), if_pos whole, Nat.min_eq_left (by omega), Except.ok.injEq,
        Option.some.injEq]
    · rw [if_pos (by omega), if_neg whole]
      simp

theorem taken_own {cut : Cut} {place : Nat} (known : place < a.keptOf cut) :
    a.taken cut place (a.chunk (a.firstChunk cut.segment + place)).size =
      some (a.chunk (a.firstChunk cut.segment + place)) := by
  have there := sectorsStop_le_of_known known
  have held : place < a.held cut.segment := Nat.lt_of_lt_of_le known (kept_le _ _)
  have after : a.start cut.segment (place + 1) ≤ a.sectorsStop cut.segment := start_le_start held
  unfold taken
  by_cases deflated : isCompressed (a.firstChunk cut.segment + place)
  · rw [if_pos deflated, if_pos (Nat.le_refl _), slice_eq_self (Nat.le_refl _)]
  · obtain ⟨content, reach⟩ := slice_raw held deflated
    rw [if_neg deflated, if_pos (by omega), content]

/-! ## Chunks of an opened reader -/

theorem Opened.decoded_eq_ok_iff {paths : List Path} {cuts : List Cut} {reader : Reader}
    (opened : a.Opened store paths cuts reader) (fits : a.Fits)
    (inflates : ∀ data, Zlib.decode? (a.deflate data) = some data)
    (supplied : a.Supplied store paths cuts) {part : Nat} {cut : Cut}
    (found : cuts[part]? = some cut) {place : Nat} (known : place < a.keptOf cut)
    (inside : a.entriesBefore cuts part + place < a.chunkCount) (data : ByteArray) :
    reader.decoded store (a.entriesBefore cuts part + place) = .ok data ↔
      a.taken cut place (a.chunk (a.entriesBefore cuts part + place)).size = some data := by
  obtain ⟨id, fetched, keeping⟩ := supplied.fetched fits found
  have entry := getElem?_tableFrom found known 0
  have listed : reader.chunks[a.entriesBefore cuts part + place]? =
      some (a.location part cut.segment (a.keptOf cut) place) := by
    rw [← Array.getElem?_toList, opened.chunks, List.getElem?_take_of_lt inside, entry,
      Nat.zero_add]
  have size : reader.segmentSizes.getD part 0 = cut.length := by
    rw [Array.getD_eq_getD_getElem?, ← Array.getElem?_toList, opened.sizes, List.getElem?_map,
      found]
    rfl
  have segment : (a.location part cut.segment (a.keptOf cut) place).segment = part := rfl
  rw [Reader.decoded, listed]
  dsimp only
  rw [segment, opened.paths, fetched, size, opened.volume, volume_chunkLength]
  exact decodeChunk_location inflates keeping known part _ (size_chunk_le _) data

theorem Opened.decoded_of_missing {paths : List Path} {cuts : List Cut} {reader : Reader}
    (opened : a.Opened store paths cuts reader) {index : Nat}
    (missing : totalOf (cuts.map a.keptOf) ≤ index) (data : ByteArray) :
    reader.decoded store index ≠ .ok data := by
  have none : reader.chunks[index]? = none := by
    rw [← Array.getElem?_toList, opened.chunks]
    apply List.getElem?_eq_none
    rw [List.length_take, length_tableFrom]
    omega
  rw [Reader.decoded, none]
  simp

end EvidencePages.Ewf.Acquisition
