import EvidencePages.Proofs.Image.ByteAddressed
import EvidencePages.Proofs.Raw.PartVisits
import EvidencePages.Proofs.Raw.Pread

/-!
# Reads that end early

A read of an open image gives an error or all the bytes of its range that lie
in the image, with one exception: a part of which it needs a piece is there
and can be read, and now ends before that piece does. What counts is the file
that the pooled handle of the part goes to, if there is one, and else the file
that opening the part gives.
-/

set_option autoImplicit false

namespace EvidencePages

namespace Segment

theorem piecesFrom_ne_zero {offset length part : Nat} {segments : List Segment} :
    ∀ piece ∈ piecesFrom offset length part segments, piece.length ≠ 0 := by
  induction segments generalizing part with
  | nil => simp [piecesFrom]
  | cons segment rest ih =>
    intro piece listed
    rw [piecesFrom] at listed
    split at listed
    · rcases List.mem_cons.mp listed with rfl | listed
      · dsimp only
        omega
      · exact ih piece listed
    · exact ih piece listed

end Segment

namespace SplitIndex

/-- The parts before one of these pieces give theirs whole, and its own part ends too early. -/
inductive FallsShort (store : FileStore) : HandlePool → List Piece → Prop
  | here {pool next : HandlePool} {piece : Piece} {rest : List Piece} {handle : Handle}
      (fetched : pool.fetch store piece.part = (.ok handle, next))
      (ends : store.EndsBefore handle (piece.within + piece.length)) :
      FallsShort store pool (piece :: rest)
  | later {pool next : HandlePool} {piece : Piece} {rest : List Piece} {handle : Handle}
      {bytes : ByteArray} (fetched : pool.fetch store piece.part = (.ok handle, next))
      (read : store.readFull handle piece.within piece.length = .ok bytes)
      (whole : bytes.size = piece.length) (behind : FallsShort store next rest) :
      FallsShort store pool (piece :: rest)

theorem readPieces_of_fallsShort {store : FileStore} {pool : HandlePool} {pieces : List Piece}
    (short : FallsShort store pool pieces) (asked : ∀ piece ∈ pieces, piece.length ≠ 0) :
    ∃ bytes, (readPieces store pool pieces).1 = .ok bytes ∧
      bytes.size < totalOf (pieces.map Piece.length) := by
  induction short with
  | here fetched ends =>
    obtain ⟨bytes, read, less⟩ :=
      FileStore.readFull_of_endsBefore ends (asked _ List.mem_cons_self)
    rw [readPieces_of_short fetched read less]
    exact ⟨bytes, rfl, Nat.lt_of_lt_of_le less (Nat.le_add_right _ _)⟩
  | later fetched read whole _ ih =>
    obtain ⟨more, rest, less⟩ := ih fun piece listed => asked piece (List.mem_cons_of_mem _ listed)
    rw [readPieces_of_whole fetched read (by omega), rest]
    refine ⟨_, rfl, ?_⟩
    rw [ByteArray.size_append, whole]
    exact Nat.add_lt_add_left less _

theorem readPieces_full_or_error {store : FileStore} {pool : HandlePool} {pieces : List Piece}
    (reaches : ¬FallsShort store pool pieces) :
    (∃ cause, (readPieces store pool pieces).1 = .error cause) ∨
      ∃ bytes, (readPieces store pool pieces).1 = .ok bytes ∧
        bytes.size = totalOf (pieces.map Piece.length) := by
  induction pieces generalizing pool with
  | nil => exact .inr ⟨.empty, rfl, rfl⟩
  | cons piece rest ih =>
    cases fetched : pool.fetch store piece.part with
    | mk result next =>
      cases result with
      | error cause =>
        rw [readPieces_of_unfetched fetched]
        exact .inl ⟨_, rfl⟩
      | ok handle =>
        cases read : store.readFull handle piece.within piece.length with
        | error cause =>
          rw [readPieces_of_unread fetched read]
          exact .inl ⟨_, rfl⟩
        | ok bytes =>
          have whole : bytes.size = piece.length :=
            FileStore.size_readFull read fun ends => reaches (.here fetched ends)
          have behind : ¬FallsShort store next rest :=
            fun short => reaches (.later fetched read whole short)
          rw [readPieces_of_whole fetched read (by omega)]
          rcases ih behind with ⟨cause, failed⟩ | ⟨more, given, size⟩
          · exact .inl ⟨cause, by rw [failed]; rfl⟩
          · refine .inr ⟨bytes ++ more, by rw [given]; rfl, ?_⟩
            rw [ByteArray.size_append, whole, size]
            rfl

end SplitIndex

namespace RawImage

def LaidOut (parts : List (Path × Nat)) (image : RawImage) : Prop :=
  ∃ pool, image.index = some ⟨Segment.layout 0 parts, pool⟩

variable {store : FileStore} {image opened : RawImage}

theorem openImage_laidOut (closed : image.index = none)
    (success : openImage store image = .ok opened) : ∃ parts, opened.LaidOut parts := by
  rw [openImage, closed] at success
  dsimp only at success
  split at success
  · cases success
  split at success
  · cases success
  · cases success
    exact ⟨_, _, rfl⟩

theorem LaidOut.size_eq {parts : List (Path × Nat)} (laid : image.LaidOut parts) :
    image.size = Segment.span parts := by
  obtain ⟨pool, indexed⟩ := laid
  rw [size, indexed]
  exact Segment.total_layout_zero parts

theorem LaidOut.pread {parts : List (Path × Nat)} (laid : image.LaidOut parts)
    (later : FileStore) (offset length : Nat) :
    (pread later image offset length).state.LaidOut parts := by
  obtain ⟨pool, indexed⟩ := laid
  rw [RawImage.pread, indexed]
  dsimp only
  rw [Outcome.reporting_state, SplitIndex.read_eq_readPieces]
  exact ⟨_, rfl⟩

theorem LaidOut.afterReads {parts : List (Path × Nat)} (laid : image.LaidOut parts)
    (history : List Request) : (image.afterReads history).LaidOut parts := by
  induction history generalizing image with
  | nil => exact laid
  | cons request rest ih => exact ih (laid.pread request.store request.offset request.length)

/-- A part of which the range needs a piece ends before that piece does, and the parts before it
give theirs. -/
def FallsShort (image : RawImage) (store : FileStore) (offset length : Nat) : Prop :=
  ∃ index, image.index = some index ∧
    SplitIndex.FallsShort store index.pool (Segment.pieces index.segments offset length)

theorem LaidOut.full_or_error_iff {parts : List (Path × Nat)} (laid : image.LaidOut parts)
    (store : FileStore) (offset length : Nat) :
    ((∃ cause, (RawImage.pread store image offset length).result = .error cause) ∨
      ∃ bytes, (RawImage.pread store image offset length).result = .ok bytes ∧
        bytes.size = min length (image.size - offset)) ↔
      ¬image.FallsShort store offset length := by
  have size := laid.size_eq
  obtain ⟨pool, indexed⟩ := laid
  have total : totalOf ((Segment.pieces (Segment.layout 0 parts) offset length).map Piece.length) =
      min length (image.size - offset) := by
    rw [Segment.pieces, Segment.length_piecesFrom, size]
    omega
  rw [RawImage.pread, indexed]
  dsimp only
  rw [Outcome.reporting_result, SplitIndex.read_eq_readPieces, ← total]
  dsimp only
  constructor
  · rintro result ⟨index, there, short⟩
    cases indexed.symm.trans there
    obtain ⟨bytes, given, less⟩ :=
      SplitIndex.readPieces_of_fallsShort short Segment.piecesFrom_ne_zero
    rw [given] at result
    dsimp only at less
    rcases result with ⟨cause, failed⟩ | ⟨all, same, full⟩
    · cases failed
    · cases same
      omega
  · intro reaches
    exact SplitIndex.readPieces_full_or_error fun short => reaches ⟨_, indexed, short⟩

/-- After any reads, over any files, a read of an opened image is an error or gives all that the
image has of its range, if and only if it does not come to a part that now ends too early. -/
theorem pread_full_or_error_iff (closed : image.index = none)
    (success : openImage store image = .ok opened) (history : List Request) (later : FileStore)
    (offset length : Nat) :
    ((∃ cause, (pread later (opened.afterReads history) offset length).result = .error cause) ∨
      ∃ bytes, (pread later (opened.afterReads history) offset length).result = .ok bytes ∧
        bytes.size = min length (opened.size - offset)) ↔
      ¬(opened.afterReads history).FallsShort later offset length := by
  obtain ⟨parts, laid⟩ := openImage_laidOut closed success
  have size : (opened.afterReads history).size = opened.size :=
    (laid.afterReads history).size_eq.trans laid.size_eq.symm
  rw [← size]
  exact (laid.afterReads history).full_or_error_iff later offset length

def firstReplaced : FileStore where
  entries := [
    (["work"], .directory),
    (["disk.000", "work"], .regular 3),
    (["disk.001", "work"], .regular 1),
    (["disk.002", "work"], .regular 2)]
  contents := #[ofBytes [1, 2, 3], .empty, ofBytes [4, 5], ofBytes [9]]
  workingDirectory := ["work"]

def threePartsImage : RawImage := { oneHandleImage with index := some threePartsIndex }

theorem openImage_oneHandleImage :
    openImage threeParts oneHandleImage = .ok threePartsImage := by rfl

/-- The handle that an earlier read left in the pool still gives the old part; opened anew the part
ends too early. -/
theorem pread_replaced_part :
    oneHandleImage.index = none ∧ openImage threeParts oneHandleImage = .ok threePartsImage ∧
      ¬(threePartsImage.afterReads [⟨threeParts, 0, 1⟩]).FallsShort firstReplaced 1 9 ∧
      (threePartsImage.afterReads []).FallsShort firstReplaced 1 9 := by
  have closed : oneHandleImage.index = none := rfl
  refine ⟨closed, openImage_oneHandleImage, ?_, ?_⟩
  · have read : (pread firstReplaced (threePartsImage.afterReads [⟨threeParts, 0, 1⟩]) 1 9).result =
        .ok (ofBytes [2, 3, 4, 5]) := by decide +kernel
    exact (pread_full_or_error_iff closed openImage_oneHandleImage _ _ _ _).mp
      (.inr ⟨_, read, rfl⟩)
  · have read : (pread firstReplaced (threePartsImage.afterReads []) 1 9).result = .ok .empty := by
      decide +kernel
    refine Classical.not_not.mp fun reaches => ?_
    rcases (pread_full_or_error_iff closed openImage_oneHandleImage [] _ _ _).mpr reaches with
      ⟨cause, failed⟩ | ⟨bytes, given, full⟩
    · rw [read] at failed
      cases failed
    · rw [read] at given
      cases given
      cases full

def firstCut : FileStore := { threeParts with contents := #[ofBytes [1], .empty, ofBytes [4, 5]] }

/-- A read behind the end of the cut part gives no byte and no error, well inside the image. -/
theorem pread_firstCut :
    openImage threeParts oneHandleImage = .ok threePartsImage ∧ threePartsImage.size = 5 ∧
      (pread firstCut threePartsImage 1 3).result = .ok .empty := by
  refine ⟨openImage_oneHandleImage, rfl, ?_⟩
  decide +kernel

end RawImage

end EvidencePages
