import EvidencePages.Proofs.Ewf.Acquisition

/-!
# Where the sections of a segment file stand

A chain of sections can be cut before any of them. The descriptor of a section
reads back as what the chain says of it, and its data are found behind it.
-/

set_option autoImplicit false

namespace EvidencePages

namespace Ewf

namespace Content

variable (content : Content)

def kind : SectionKind := .ofName (content.paddedName.takeWhile (· ≠ 0))

theorem length_paddedName : content.paddedName.length = 16 := by
  rw [paddedName, List.length_take, List.length_append, List.length_replicate]
  omega

@[simp] theorem size_descriptor (next : Nat) :
    (content.descriptor next).size = Descriptor.length := by
  simp [descriptor, length_paddedName, littleEndianBytes_length, Descriptor.length]

theorem parse_descriptor {next : Nat} (reach : next < 1 <<< 64) (fits : content.size < 1 <<< 64)
    (offset : UInt64) : Descriptor.parse (content.descriptor next) offset =
      ⟨content.kind, offset, UInt64.ofNat next, UInt64.ofNat content.size⟩ := by
  have written : ∀ n, (ofBytes (littleEndianBytes 8 n)).size = 8 := fun n => rfl
  have padded : (ofBytes content.paddedName).size = 16 := content.length_paddedName
  have name : slice (content.descriptor next) 0 16 = ofBytes content.paddedName :=
    slice_front padded _
  have target : numberAt (content.descriptor next) 16 8 = next :=
    numberAt_of_slice (slice_middle padded (written next) _) reach
  have size : numberAt (content.descriptor next) 24 8 = content.size := by
    apply numberAt_of_slice _ fits
    rw [descriptor, ← ByteArray.append_assoc]
    exact slice_middle (by rw [ByteArray.size_append, padded, written]) (written _) _
  simp only [Descriptor.parse, u64At, name, target, size, toList_ofBytes]
  rfl

/-! ## Chains -/

@[simp] theorem totalSize_nil : totalSize [] = 0 := rfl

@[simp] theorem totalSize_cons (rest : List Content) :
    totalSize (content :: rest) = content.size + totalSize rest := by
  rw [totalSize, List.map_cons, totalOf]
  rfl

theorem totalSize_append (contents rest : List Content) :
    totalSize (contents ++ rest) = totalSize contents + totalSize rest := by
  rw [totalSize, List.map_append, totalOf_append]
  rfl

theorem size_laidOut (offset : Nat) (contents : List Content) :
    (laidOut offset contents).size = totalSize contents := by
  induction contents generalizing offset with
  | nil => rfl
  | cons content rest ih =>
    rw [laidOut, ByteArray.size_append, ByteArray.size_append, size_descriptor, ih,
      totalSize_cons, size]
    omega

theorem slice_laidOut (offset : Nat) (before rest : List Content) :
    slice (laidOut offset (before ++ content :: rest)) (totalSize before + Descriptor.length)
      content.data.size = content.data := by
  induction before generalizing offset with
  | nil =>
    rw [List.nil_append, laidOut, totalSize_nil, Nat.zero_add]
    exact slice_middle (content.size_descriptor _) rfl _
  | cons first before ih =>
    have step : totalSize (first :: before) + Descriptor.length =
        (first.descriptor (if (before ++ content :: rest).isEmpty then offset
          else offset + first.size) ++ first.data).size +
            (totalSize before + Descriptor.length) := by
      rw [ByteArray.size_append, size_descriptor, totalSize_cons, size]
      omega
    rw [List.cons_append, laidOut, ← ByteArray.append_assoc, step, slice_append_right]
    exact ih _

end Content

namespace Acquisition

variable {a : Acquisition}

@[simp] theorem kind_header (data : ByteArray) :
    (⟨"header", data⟩ : Content).kind = .header false := by
  simp [Content.kind, Content.paddedName, ascii, SectionKind.ofName]

@[simp] theorem kind_wideHeader (data : ByteArray) :
    (⟨"header2", data⟩ : Content).kind = .header true := by
  simp [Content.kind, Content.paddedName, ascii, SectionKind.ofName]

@[simp] theorem kind_volume (data : ByteArray) : (⟨"volume", data⟩ : Content).kind = .volume := by
  simp [Content.kind, Content.paddedName, ascii, SectionKind.ofName]

@[simp] theorem kind_sectors (segment : Nat) : (a.sectors segment).kind = .sectors := by
  simp [sectors, Content.kind, Content.paddedName, ascii, SectionKind.ofName]

@[simp] theorem kind_table (segment : Nat) : (a.table segment).kind = .table := by
  simp [table, Content.kind, Content.paddedName, ascii, SectionKind.ofName]

@[simp] theorem kind_ending (segment : Nat) : (a.ending segment).kind = .last := by
  unfold ending
  split <;> simp [Content.kind, Content.paddedName, ascii, SectionKind.ofName]

end Acquisition

end Ewf

end EvidencePages
