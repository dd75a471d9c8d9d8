import EvidencePages.Proofs.Store.PositionedRead

/-!
# Reading into a buffer

Repeated reads put their bytes one behind the other into a buffer. The host
may divide the reads as it likes: the buffer ends up with what the file has
from the offset on, as far as both go, and with what it held before behind
that.
-/

set_option autoImplicit false

namespace EvidencePages.FileStore

theorem fill_eq (store : FileStore) (handle : Handle) (offset : Nat) {filled : Nat}
    {buffer : ByteArray} (inside : filled ≤ buffer.size) :
    store.fill handle offset filled buffer =
      (store.readFull handle (offset + filled) (buffer.size - filled)).map fun bytes =>
        (filled + bytes.size, overwrite buffer filled bytes) := by
  fun_induction store.fill handle offset filled buffer with
  | case1 filled buffer more cause failed =>
    rw [readFull, if_neg (by omega), failed]
    rfl
  | case2 filled buffer more bytes read none =>
    rw [readFull, if_neg (by omega), read]
    dsimp only
    rw [if_pos none, Except.map, overwrite_empty]
    rfl
  | case3 filled buffer more bytes read some ih =>
    -- What one read delivers fits in the buffer, which thus keeps its size.
    have bound := size_readAt_le read
    have size : (overwrite buffer filled bytes).size = buffer.size := by
      rw [size_overwrite inside]
      omega
    have left : buffer.size - (filled + bytes.size) = buffer.size - filled - bytes.size := by omega
    rw [ih (by omega), readFull.eq_def store handle (offset + filled), if_neg (by omega), read,
      size, left, ← Nat.add_assoc]
    dsimp only
    rw [if_neg some]
    cases store.readFull handle (offset + filled + bytes.size)
      (buffer.size - filled - bytes.size) with
    | error cause => rfl
    | ok rest =>
      simp only [Except.map, overwrite_overwrite inside, ByteArray.size_append, Nat.add_assoc]
  | case4 filled buffer full =>
    rw [readFull, if_pos (by omega), Except.map, overwrite_empty]
    rfl

/-- However the host divides the reads of a regular file, they end with all that the buffer takes
of the file from the offset on. The buffer has these bytes in front, and is as it was behind them.
No offset is read twice on the way, so that `grant` may answer each read as it likes. -/
theorem fill_of_file {store : FileStore} {id : Nat} (granted : store.refusal (.file id) = none)
    (offset : Nat) (buffer : ByteArray) (inside : offset + buffer.size < offsetLimit) :
    ∃ n filled, n = min buffer.size ((store.content id).size - offset) ∧
      store.fill (.file id) offset 0 buffer = .ok (n, filled) ∧
      (∀ index < n, filled[index]? = (store.content id)[offset + index]?) ∧
      (∀ index, n ≤ index → filled[index]? = buffer[index]?) ∧
      filled.size = buffer.size ∧
      store.readFull (.file id) offset buffer.size = .ok (slice filled 0 n) := by
  have joined := readFull_file granted inside
  have size := size_slice (store.content id) offset buffer.size
  generalize taken : slice (store.content id) offset buffer.size = bytes at joined size
  refine ⟨bytes.size, overwrite buffer 0 bytes, size, ?_, ?_, ?_, ?_, ?_⟩
  · rw [fill_eq store _ _ (Nat.zero_le _), Nat.add_zero, Nat.sub_zero, joined, Except.map,
      Nat.zero_add]
  · intro index below
    rw [getElem?_overwrite (Nat.zero_le _), if_pos ⟨Nat.zero_le _, by omega⟩, Nat.sub_zero, ← taken,
      getElem?_slice (by omega)]
  · intro index behind
    rw [getElem?_overwrite (Nat.zero_le _), if_neg (by omega)]
  · rw [size_overwrite (Nat.zero_le _)]
    omega
  · rw [joined, overwrite_zero, slice_front rfl]

def tenBytes : FileStore where
  entries := []
  contents := #[ofBytes [0x30, 0x31, 0x32, 0x33, 0x34, 0x35, 0x36, 0x37, 0x38, 0x39]]
  workingDirectory := []
  grant := fun _ offset _ => offset % 3

theorem fill_tenBytes :
    tenBytes.refusal (.file 0) = none ∧
      3 + (ofBytes (List.replicate 9 0xAA)).size < offsetLimit ∧
      ∃ n filled, n = 7 ∧
        tenBytes.fill (.file 0) 3 0 (ofBytes (List.replicate 9 0xAA)) = .ok (n, filled) ∧
        (∀ index < n, filled[index]? = (tenBytes.content 0)[3 + index]?) ∧
        (∀ index, n ≤ index → filled[index]? = (ofBytes (List.replicate 9 0xAA))[index]?) ∧
        filled.size = 9 ∧
        tenBytes.readFull (.file 0) 3 9 = .ok (slice filled 0 n) := by
  have granted : tenBytes.refusal (.file 0) = none := rfl
  exact ⟨granted, by decide,
    fill_of_file granted 3 (ofBytes (List.replicate 9 0xAA)) (by decide)⟩

end EvidencePages.FileStore
