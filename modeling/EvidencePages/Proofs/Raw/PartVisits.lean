import EvidencePages.Proofs.Raw.Segments
import EvidencePages.Proofs.Store.HandlePool
import EvidencePages.Raw.RawImage

/-!
# Reading a split image part after part

The range of a read falls into pieces, one in each part that it touches. The
read comes to the same as asking each of these parts once, in order, for all of
its piece: within a part every step is served through the same handle, and its
pieces are joined. A part that cannot be read ends the read with an error, and
one that gives less than its piece ends it early.
-/

set_option autoImplicit false

namespace EvidencePages

/-- The piece of a range that lies in a part: where it starts in the image and in the part. -/
structure Piece where
  part : Nat
  position : Nat
  within : Nat
  length : Nat

namespace Segment

/-- The pieces of a range in these segments, which are numbered from `part` on. -/
def piecesFrom (offset length : Nat) : Nat → List Segment → List Piece
  | _, [] => []
  | part, segment :: rest =>
    let first := max offset segment.start
    let stop := min (offset + length) segment.stop
    if first < stop then
      ⟨part, first, first - segment.start, stop - first⟩ ::
        piecesFrom offset length (part + 1) rest
    else piecesFrom offset length (part + 1) rest

def pieces (segments : List Segment) (offset length : Nat) : List Piece :=
  piecesFrom offset length 0 segments

theorem piecesFrom_eq_nil {offset length part : Nat} {segments : List Segment}
    (none : ∀ segment ∈ segments, min (offset + length) segment.stop ≤ max offset segment.start) :
    piecesFrom offset length part segments = [] := by
  induction segments generalizing part with
  | nil => rfl
  | cons segment rest ih =>
    have here := none segment List.mem_cons_self
    rw [piecesFrom, if_neg (by omega),
      ih fun other listed => none other (List.mem_cons_of_mem _ listed)]

theorem pieces_zero (segments : List Segment) (offset : Nat) : pieces segments offset 0 = [] := by
  apply piecesFrom_eq_nil
  intro segment listed
  omega

theorem pieces_of_no_owner {parts : List (Path × Nat)} {offset : Nat}
    (none : owner? (layout 0 parts) offset = none) (length : Nat) :
    pieces (layout 0 parts) offset length = [] := by
  rw [owner?_layout_eq_none (Nat.zero_le _), Nat.zero_add] at none
  apply piecesFrom_eq_nil
  intro segment listed
  obtain ⟨index, there⟩ := List.getElem?_of_mem listed
  have inside := stop_le_of_layout there
  omega

theorem piecesFrom_layout_congr {start part offset length other left : Nat}
    {parts : List (Path × Nat)} (before : offset ≤ start) (before' : other ≤ start)
    (same : offset + length = other + left) :
    piecesFrom offset length part (layout start parts) =
      piecesFrom other left part (layout start parts) := by
  induction parts generalizing start part with
  | nil => rfl
  | cons entry rest ih =>
    obtain ⟨path, size⟩ := entry
    rw [layout, piecesFrom, piecesFrom, ih (by omega) (by omega), same]
    simp only [Nat.max_eq_right before, Nat.max_eq_right before']

theorem piecesFrom_eq_cons {start part offset length wanted index : Nat}
    {parts : List (Path × Nat)} {segment : Segment} (asked : length ≠ 0) (inside : start ≤ offset)
    (found : owner? (layout start parts) offset = some (index, segment))
    (reach : wanted = min length (segment.length - (offset - segment.start))) :
    piecesFrom offset length part (layout start parts) =
      ⟨part + index, offset, offset - segment.start, wanted⟩ ::
        piecesFrom (offset + wanted) (length - wanted) part (layout start parts) := by
  induction parts generalizing start part index with
  | nil => cases found
  | cons entry rest ih =>
    obtain ⟨path, size⟩ := entry
    have stops : (⟨path, start, size⟩ : Segment).stop = start + size := rfl
    rw [layout, owner?_cons] at found
    rw [layout, piecesFrom, piecesFrom]
    dsimp only
    by_cases before : offset < (⟨path, start, size⟩ : Segment).stop
    · have holds : (⟨path, start, size⟩ : Segment).contains offset = true :=
        (contains_iff _ _).mpr ⟨inside, before⟩
      rw [if_pos before, if_pos holds] at found
      cases found
      dsimp only at reach
      have tail : piecesFrom offset length (part + 1) (layout (start + size) rest) =
          piecesFrom (offset + wanted) (length - wanted) (part + 1) (layout (start + size) rest) :=
        piecesFrom_layout_congr (by omega) (by omega) (by omega)
      rw [if_pos (by omega), if_neg (by omega), tail, Nat.max_eq_left inside, stops]
      congr 2
      omega
    · rw [if_neg before] at found
      obtain ⟨⟨index, owner⟩, there, same⟩ := Option.map_eq_some_iff.mp found
      cases same
      rw [if_neg (by omega), if_neg (by omega), ih (by omega) there, Nat.add_assoc part,
        Nat.add_comm 1]

theorem pieces_eq_cons {offset length wanted index : Nat} {parts : List (Path × Nat)}
    {segment : Segment} (asked : length ≠ 0)
    (found : owner? (layout 0 parts) offset = some (index, segment))
    (reach : wanted = min length (segment.length - (offset - segment.start))) :
    pieces (layout 0 parts) offset length =
      ⟨index, offset, offset - segment.start, wanted⟩ ::
        pieces (layout 0 parts) (offset + wanted) (length - wanted) := by
  rw [pieces, piecesFrom_eq_cons asked (Nat.zero_le _) found reach, Nat.zero_add, pieces]

theorem length_piecesFrom (offset length part start : Nat) (parts : List (Path × Nat)) :
    totalOf ((piecesFrom offset length part (layout start parts)).map Piece.length) =
      min (offset + length) (start + span parts) - max offset start := by
  induction parts generalizing start part with
  | nil =>
    have none : span [] = 0 := rfl
    rw [layout, piecesFrom, List.map_nil, totalOf, none]
    omega
  | cons entry rest ih =>
    obtain ⟨path, size⟩ := entry
    have stops : (⟨path, start, size⟩ : Segment).stop = start + size := rfl
    have later := ih (part + 1) (start + size)
    rw [layout, piecesFrom, span_cons, stops]
    dsimp only
    split
    · rw [List.map_cons, totalOf, later]
      dsimp only
      omega
    · rw [later]
      omega

end Segment

namespace SplitIndex

/-- Asks the part of each piece once, for all of it. -/
def readPieces (store : FileStore) :
    HandlePool → List Piece → Except ImageError ByteArray × HandlePool
  | pool, [] => (.ok .empty, pool)
  | pool, piece :: rest =>
    match pool.fetch store piece.part with
    | (.error cause, pool) => (.error (.read piece.position (.io cause)), pool)
    | (.ok handle, pool) =>
      match store.readFull handle piece.within piece.length with
      | .error cause => (.error (.read piece.position (.io cause)), pool)
      | .ok bytes =>
        if bytes.size < piece.length then (.ok bytes, pool)
        else
          let (more, last) := readPieces store pool rest
          (more.map (bytes ++ ·), last)

section readPieces

variable {store : FileStore} {pool next : HandlePool} {piece : Piece} {rest : List Piece}

theorem readPieces_of_unfetched {cause : IoError}
    (fetched : pool.fetch store piece.part = (.error cause, next)) :
    readPieces store pool (piece :: rest) =
      (.error (.read piece.position (.io cause)), next) := by
  rw [readPieces, fetched]

theorem readPieces_of_unread {handle : Handle} {cause : IoError}
    (fetched : pool.fetch store piece.part = (.ok handle, next))
    (read : store.readFull handle piece.within piece.length = .error cause) :
    readPieces store pool (piece :: rest) =
      (.error (.read piece.position (.io cause)), next) := by
  rw [readPieces, fetched]
  dsimp only
  rw [read]

theorem readPieces_of_short {handle : Handle} {bytes : ByteArray}
    (fetched : pool.fetch store piece.part = (.ok handle, next))
    (read : store.readFull handle piece.within piece.length = .ok bytes)
    (short : bytes.size < piece.length) :
    readPieces store pool (piece :: rest) = (.ok bytes, next) := by
  rw [readPieces, fetched]
  dsimp only
  rw [read]
  dsimp only
  rw [if_pos short]

theorem readPieces_of_whole {handle : Handle} {bytes : ByteArray}
    (fetched : pool.fetch store piece.part = (.ok handle, next))
    (read : store.readFull handle piece.within piece.length = .ok bytes)
    (whole : ¬bytes.size < piece.length) :
    readPieces store pool (piece :: rest) =
      ((readPieces store next rest).1.map (bytes ++ ·), (readPieces store next rest).2) := by
  rw [readPieces, fetched]
  dsimp only
  rw [read]
  dsimp only
  rw [if_neg whole]

end readPieces

theorem readPieces_of_begun {store : FileStore} {pool next : HandlePool} {handle : Handle}
    {part position within wanted : Nat} {bytes : ByteArray} {rest : List Piece}
    (fetched : pool.fetch store part = (.ok handle, next))
    (read : store.readAt handle within wanted = .ok bytes) (some : bytes.size ≠ 0)
    (unfinished : bytes.size < wanted) :
    readPieces store pool (⟨part, position, within, wanted⟩ :: rest) =
      let later := readPieces store next
        (⟨part, position + bytes.size, within + bytes.size, wanted - bytes.size⟩ :: rest)
      (later.1.map (bytes ++ ·), later.2) := by
  obtain ⟨left, read, all⟩ := FileStore.readFull_of_readAt read some
  have again := HandlePool.fetch_again fetched
  by_cases short : left.size < wanted - bytes.size
  · have shorter : (bytes ++ left).size < wanted := by
      rw [ByteArray.size_append]
      omega
    rw [readPieces_of_short fetched all shorter, readPieces_of_short again read short]
    rfl
  · have whole : ¬(bytes ++ left).size < wanted := by
      rw [ByteArray.size_append]
      omega
    rw [readPieces_of_whole fetched all whole, readPieces_of_whole again read short]
    cases (readPieces store next rest).1 with
    | error cause => rfl
    | ok more => simp only [Except.map, ByteArray.append_assoc]

theorem readPieces_of_done {store : FileStore} {pool next : HandlePool} {handle : Handle}
    {piece : Piece} {bytes : ByteArray} {rest : List Piece}
    (fetched : pool.fetch store piece.part = (.ok handle, next))
    (read : store.readAt handle piece.within piece.length = .ok bytes) (some : bytes.size ≠ 0)
    (done : bytes.size = piece.length) :
    readPieces store pool (piece :: rest) =
      ((readPieces store next rest).1.map (bytes ++ ·), (readPieces store next rest).2) := by
  obtain ⟨left, last, all⟩ := FileStore.readFull_of_readAt read some
  rw [done, Nat.sub_self, FileStore.readFull, if_pos rfl] at last
  cases last
  rw [ByteArray.append_empty] at all
  exact readPieces_of_whole fetched all (by omega)

theorem readPieces_of_step {store : FileStore} {parts : List (Path × Nat)}
    {pool next : HandlePool} {offset length wanted part : Nat} {segment : Segment}
    {handle : Handle} {bytes : ByteArray} (asked : length ≠ 0)
    (found : Segment.owner? (Segment.layout 0 parts) offset = some (part, segment))
    (reach : wanted = min length (segment.length - (offset - segment.start)))
    (fetched : pool.fetch store part = (.ok handle, next))
    (read : store.readAt handle (offset - segment.start) wanted = .ok bytes)
    (some : bytes.size ≠ 0) :
    readPieces store pool (Segment.pieces (Segment.layout 0 parts) offset length) =
      let later := readPieces store next
        (Segment.pieces (Segment.layout 0 parts) (offset + bytes.size) (length - bytes.size))
      (later.1.map (bytes ++ ·), later.2) := by
  obtain ⟨there, lower, upper⟩ := Segment.owner?_eq_some found
  have stops : segment.stop = segment.start + segment.length := rfl
  have bound := FileStore.size_readAt_le read
  rw [Segment.pieces_eq_cons asked found reach]
  by_cases unfinished : bytes.size < wanted
  · have inside : segment.contains (offset + bytes.size) = true :=
      (Segment.contains_iff _ _).mpr (by omega)
    have owner := Segment.owner?_layout_of_contains there inside
    have later := Segment.pieces_eq_cons (show length - bytes.size ≠ 0 by omega) owner
      (show wanted - bytes.size = _ by omega)
    have within : offset + bytes.size - segment.start = offset - segment.start + bytes.size := by
      omega
    have stop : offset + bytes.size + (wanted - bytes.size) = offset + wanted := by omega
    have left : length - bytes.size - (wanted - bytes.size) = length - wanted := by omega
    rw [readPieces_of_begun fetched read some unfinished, later, within, stop, left]
  · have done : bytes.size = wanted := by omega
    rw [readPieces_of_done fetched read some done, done]

/-- A read, which may take several steps in each part, asks each part for its piece. -/
theorem read_eq_readPieces (store : FileStore) (parts : List (Path × Nat)) (pool : HandlePool)
    (offset length : Nat) :
    read store ⟨Segment.layout 0 parts, pool⟩ offset length =
      let visited := readPieces store pool
        (Segment.pieces (Segment.layout 0 parts) offset length)
      (visited.1, ⟨Segment.layout 0 parts, visited.2⟩) := by
  -- On the length, which each step shortens; a step may end inside a piece.
  induction length using Nat.strongRecOn generalizing pool offset with
  | ind length ih =>
    rw [read]
    by_cases empty : length = 0
    · rw [if_pos empty, empty, Segment.pieces_zero]
      rfl
    rw [if_neg empty]
    dsimp only
    cases found : Segment.owner? (Segment.layout 0 parts) offset with
    | none =>
      rw [Segment.pieces_of_no_owner found]
      rfl
    | some owner =>
      obtain ⟨part, segment⟩ := owner
      obtain ⟨there, lower, upper⟩ := Segment.owner?_eq_some found
      have stops : segment.stop = segment.start + segment.length := rfl
      dsimp only
      generalize reach : min length (segment.length - (offset - segment.start)) = wanted
      have positive : 0 < wanted := by omega
      have pieces := Segment.pieces_eq_cons empty found reach.symm
      cases fetched : pool.fetch store part with
      | mk result next =>
        cases result with
        | error cause => rw [pieces, readPieces_of_unfetched fetched]
        | ok handle =>
          dsimp only
          cases step : store.readAt handle (offset - segment.start) wanted with
          | error cause =>
            have unread : store.readFull handle (offset - segment.start) wanted = .error cause := by
              rw [FileStore.readFull, if_neg (Nat.ne_of_gt positive), step]
            rw [pieces, readPieces_of_unread fetched unread]
          | ok bytes =>
            dsimp only
            by_cases last : bytes.size = 0
            · have nothing :
                  store.readFull handle (offset - segment.start) wanted = .ok .empty := by
                rw [FileStore.readFull, if_neg (Nat.ne_of_gt positive), step]
                exact if_pos last
              have short : ByteArray.empty.size < wanted := positive
              rw [if_pos last, pieces, readPieces_of_short fetched nothing short]
            rw [if_neg last, ih _ (by omega),
              readPieces_of_step empty found reach.symm fetched step last]
            generalize readPieces store next (Segment.pieces (Segment.layout 0 parts)
              (offset + bytes.size) (length - bytes.size)) = visited
            obtain ⟨result, last⟩ := visited
            cases result <;> rfl

end SplitIndex

end EvidencePages
