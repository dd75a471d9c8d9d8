import EvidencePages.Proofs.Image.Cursors

/-!
# Cursors shared between images

A cursor is a plain value and may be used with an image that did not make it,
of the other kind or of another size. Every move by an image brings it back
into that image: it then stands at an address of the image's kind, no further
than its size, and is at the end exactly there. Until then it counts as being
at the end.
-/

set_option autoImplicit false

namespace EvidencePages

namespace Paging

def size : Paging → Nat
  | .bytes geometry => geometry.size
  | .files count => count

/-- Where a cursor stands; one of the other kind stands nowhere. -/
def position? : Paging → Cursor → Option Nat
  | .bytes _, cursor => cursor.byteOffset?
  | .files _, cursor => cursor.fileIndex?

/-- The cursor is of this kind, no further than the size, and at the end exactly there. -/
def Fits (paging : Paging) (cursor : Cursor) : Prop :=
  ∃ position, paging.position? cursor = some position ∧ position ≤ paging.size ∧
    (cursor.atEnd = true ↔ position = paging.size)

def Strays (paging : Paging) (cursor : Cursor) : Prop :=
  ∀ position, paging.position? cursor = some position → paging.size < position

variable (paging : Paging)

theorem cursorAt_fits (index : Nat) : paging.Fits (paging.cursorAt index) := by
  cases paging with
  | bytes geometry =>
    refine ⟨_, rfl, Nat.min_le_right _ _, ?_⟩
    simp only [cursorAt, ByteGeometry.cursorAt, Cursor.atByte, size, decide_eq_true_eq]
    omega
  | files count =>
    refine ⟨_, rfl, Nat.min_le_right _ _, ?_⟩
    simp only [cursorAt, Cursor.atFile, size, decide_eq_true_eq]
    omega

theorem last_fits : paging.Fits paging.last := by
  cases paging with
  | bytes geometry => exact ⟨_, rfl, Nat.le_refl _, fun _ => rfl, fun _ => rfl⟩
  | files count => exact ⟨_, rfl, Nat.le_refl _, fun _ => rfl, fun _ => rfl⟩

theorem advance_fits (cursor : Cursor) : paging.Fits (paging.advance cursor) := by
  cases paging with
  | bytes geometry =>
    refine ⟨_, rfl, Nat.min_le_right _ _, ?_⟩
    simp only [advance, ByteGeometry.advance, Cursor.stepBytes, Cursor.atByte, size,
      decide_eq_true_eq]
    omega
  | files count =>
    refine ⟨_, rfl, Nat.min_le_right _ _, ?_⟩
    simp only [advance, Cursor.stepFile, Cursor.atFile, size, decide_eq_true_eq]
    omega

theorem le_advance {cursor : Cursor} {position : Nat}
    (stands : paging.position? cursor = some position) (inside : position ≤ paging.size) :
    ∃ next, paging.position? (paging.advance cursor) = some next ∧ position ≤ next := by
  cases paging with
  | bytes geometry =>
    refine ⟨_, rfl, ?_⟩
    simp only [position?] at stands
    simp only [size] at inside
    rw [stands, Option.getD_some]
    omega
  | files count =>
    refine ⟨_, rfl, ?_⟩
    simp only [position?] at stands
    simp only [size] at inside
    rw [stands, Option.getD_some]
    omega

def reach (cursor : Cursor) (step : Nat) : Nat :=
  min ((paging.position? cursor).getD paging.size + step) paging.size

theorem Strays.reach_eq {paging : Paging} {cursor : Cursor} (strays : paging.Strays cursor)
    (step : Nat) : paging.reach cursor step = paging.reach paging.last step := by
  have ended : paging.reach paging.last step = paging.size := by
    cases paging with
    | bytes geometry => exact Nat.min_eq_right (Nat.le_add_right _ _)
    | files count => exact Nat.min_eq_right (Nat.le_add_right _ _)
  rw [ended, reach]
  cases stands : paging.position? cursor with
  | none =>
    rw [Option.getD_none]
    omega
  | some position =>
    have further := strays position stands
    rw [Option.getD_some]
    omega

theorem Strays.advance_eq {paging : Paging} {cursor : Cursor} (strays : paging.Strays cursor) :
    paging.advance cursor = paging.advance paging.last := by
  cases paging with
  | bytes geometry =>
    exact congrArg (fun next => Cursor.atByte next (geometry.size ≤ next))
      (strays.reach_eq geometry.pageSize)
  | files count =>
    exact congrArg (fun next => Cursor.atFile next (count ≤ next)) (strays.reach_eq 1)

end Paging

theorem ByteGeometry.offsetOf_of_strays {geometry : ByteGeometry} {cursor : Cursor}
    (strays : (Paging.bytes geometry).Strays cursor) :
    geometry.offsetOf cursor = geometry.offsetOf geometry.last :=
  strays.reach_eq 0

theorem DirectoryImage.indexOf_of_strays {image : DirectoryImage} {cursor : Cursor}
    (strays : (Paging.files image.count).Strays cursor) :
    image.indexOf cursor = image.indexOf image.last :=
  strays.reach_eq 0

theorem ByteGeometry.readPage_congr {σ : Type} {geometry : ByteGeometry} {cursor other : Cursor}
    (same : geometry.offsetOf cursor = geometry.offsetOf other)
    (pread : σ → Nat → Nat → Outcome σ ByteArray) (state : σ) :
    geometry.readPage pread state cursor = geometry.readPage pread state other := by
  unfold readPage
  rw [same]

namespace Backend

variable {backend : Backend} {cursor : Cursor}

theorem positionOf_of_strays (strays : backend.paging.Strays cursor) :
    backend.positionOf cursor = backend.positionOf backend.last := by
  cases backend with
  | raw image => exact congrArg Position.atOffset (ByteGeometry.offsetOf_of_strays strays)
  | container image => exact congrArg Position.atOffset (ByteGeometry.offsetOf_of_strays strays)
  | directory image =>
    have same := DirectoryImage.indexOf_of_strays strays
    simp only [positionOf, last, DirectoryImage.positionOf, DirectoryImage.fileAt, same]

theorem readPage_of_strays (strays : backend.paging.Strays cursor) (store : FileStore) :
    backend.readPage store cursor = backend.readPage store backend.last := by
  cases backend with
  | raw image =>
    have same := ByteGeometry.offsetOf_of_strays strays
    simp only [readPage, last, RawImage.readPage, ByteGeometry.readPage_congr same]
  | container image =>
    have same := ByteGeometry.offsetOf_of_strays strays
    simp only [readPage, last, ContainerImage.readPage, ByteGeometry.readPage_congr same]
  | directory image =>
    have same := DirectoryImage.indexOf_of_strays strays
    simp only [readPage, last, DirectoryImage.readPage, DirectoryImage.fileAt, same]

theorem seek?_eq_none (uncounted : backend.blockCount? = none) (block : Nat) :
    backend.seek? block = none := by
  have bytes : ∀ geometry : ByteGeometry, geometry.blockCount? = none →
      geometry.seek? block = none := by
    intro geometry uncounted
    rw [ByteGeometry.seek?, uncounted]
  cases backend with
  | raw image => exact bytes image.geometry uncounted
  | container image => exact bytes image.geometry uncounted
  | directory image => cases uncounted

end Backend

theorem Image.seek_fits (image : Image) (block : Nat) :
    image.backend.paging.Fits (image.seek block).1 := by
  rw [seek]
  cases counted : image.backend.blockCount? with
  | none =>
    rw [Backend.seek?_eq_none counted, Option.getD_none, image.backend.last_eq_paging]
    exact Paging.last_fits _
  | some count =>
    rw [image.backend.seek?_eq counted, Option.getD_some]
    exact Paging.cursorAt_fits _ _

/-! ## Cursors passed around -/

structure HeldCursor (ι : Type) where
  cursor : Cursor
  holder : ι

/-- What can be done with cursors that are kept in numbered slots, by any of the images. -/
inductive CursorMove (ι : Type) where
  | first (holder : ι) (slot : Nat)
  | last (holder : ι) (slot : Nat)
  | advance (holder : ι) (slot : Nat)
  | seek (holder : ι) (slot block : Nat)
  | copy (source target : Nat)

namespace CursorMove

variable {ι : Type}

def place (table : Nat → Option (HeldCursor ι)) (slot : Nat) (held : Option (HeldCursor ι)) :
    Nat → Option (HeldCursor ι) :=
  fun other => if other = slot then held else table other

def apply (images : ι → Image) (table : Nat → Option (HeldCursor ι)) :
    CursorMove ι → Nat → Option (HeldCursor ι)
  | .first holder slot => place table slot (some ⟨(images holder).backend.first, holder⟩)
  | .last holder slot => place table slot (some ⟨(images holder).backend.last, holder⟩)
  | .advance holder slot =>
    place table slot ((table slot).map fun held =>
      ⟨(images holder).backend.advance held.cursor, holder⟩)
  | .seek holder slot block =>
    place table slot ((table slot).map fun _ => ⟨((images holder).seek block).1, holder⟩)
  | .copy source target => place table target (table source)

def run (images : ι → Image) (table : Nat → Option (HeldCursor ι)) :
    List (CursorMove ι) → Nat → Option (HeldCursor ι)
  | [] => table
  | move :: rest => run images (apply images table move) rest

/-- Each cursor fits the image that last made or moved it. -/
def AllFit (images : ι → Image) (table : Nat → Option (HeldCursor ι)) : Prop :=
  ∀ slot held, table slot = some held → (images held.holder).backend.paging.Fits held.cursor

variable {images : ι → Image} {table : Nat → Option (HeldCursor ι)}

theorem AllFit.place (fit : AllFit images table) (slot : Nat) {held : Option (HeldCursor ι)}
    (new : ∀ given, held = some given → (images given.holder).backend.paging.Fits given.cursor) :
    AllFit images (place table slot held) := by
  intro other given found
  unfold CursorMove.place at found
  split at found
  · exact new given found
  · exact fit other given found

theorem AllFit.apply (fit : AllFit images table) (move : CursorMove ι) :
    AllFit images (apply images table move) := by
  cases move with
  | first holder slot =>
    apply fit.place slot
    rintro given ⟨⟩
    rw [(images holder).backend.first_eq_cursorAt]
    exact Paging.cursorAt_fits _ 0
  | last holder slot =>
    apply fit.place slot
    rintro given ⟨⟩
    rw [(images holder).backend.last_eq_paging]
    exact Paging.last_fits _
  | advance holder slot =>
    apply fit.place slot
    intro given moved
    obtain ⟨held, -, rfl⟩ := Option.map_eq_some_iff.mp moved
    rw [(images holder).backend.advance_eq_paging]
    exact Paging.advance_fits _ held.cursor
  | seek holder slot block =>
    apply fit.place slot
    intro given moved
    obtain ⟨held, -, rfl⟩ := Option.map_eq_some_iff.mp moved
    exact (images holder).seek_fits block
  | copy source target => exact fit.place target fun given found => fit source given found

theorem AllFit.run (fit : AllFit images table) (moves : List (CursorMove ι)) :
    AllFit images (run images table moves) := by
  induction moves generalizing table with
  | nil => exact fit
  | cons move rest ih => exact ih (fit.apply move)

/-- However cursors are made, moved and copied between images of any kinds and sizes, each fits the
image that last made or moved it. No step leads back, and a cursor that strays from an image is
taken by it for its last one. -/
theorem cursors_fit (images : ι → Image) (moves : List (CursorMove ι)) :
    AllFit images (CursorMove.run images (fun _ => none) moves) ∧
    (∀ holder cursor position,
      (images holder).backend.paging.position? cursor = some position →
      position ≤ (images holder).backend.paging.size →
      ∃ next, (images holder).backend.paging.position?
          ((images holder).backend.advance cursor) = some next ∧ position ≤ next) ∧
    ∀ holder cursor, (images holder).backend.paging.Strays cursor →
      (∀ store, (images holder).readPage store cursor =
        (images holder).readPage store (images holder).backend.last) ∧
      (images holder).backend.positionOf cursor =
        (images holder).backend.positionOf (images holder).backend.last ∧
      (images holder).backend.advance cursor =
        (images holder).backend.advance (images holder).backend.last := by
  refine ⟨?_, ?_, ?_⟩
  · apply AllFit.run
    intro slot held found
    cases found
  · intro holder cursor position stands inside
    rw [(images holder).backend.advance_eq_paging]
    exact Paging.le_advance _ stands inside
  · intro holder cursor strays
    refine ⟨?_, Backend.positionOf_of_strays strays, ?_⟩
    · intro store
      rw [Image.readPage, Backend.readPage_of_strays strays, Image.readPage]
    · rw [Backend.advance_eq_paging, Backend.advance_eq_paging, Backend.last_eq_paging]
      exact strays.advance_eq

end CursorMove

end EvidencePages
