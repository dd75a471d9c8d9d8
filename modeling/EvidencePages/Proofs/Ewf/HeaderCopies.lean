import EvidencePages.Proofs.Ewf.HeaderTables
import EvidencePages.Proofs.Ewf.LongChains
import EvidencePages.Proofs.Ewf.OpenedSets
import EvidencePages.Proofs.Zlib.Plain

/-!
# Copies of the case information

A segment may hold its header table more than once, in either encoding. One
copy is taken: the first one in wide characters that the walk visits, or else
the first one in narrow characters. It is taken whatever it decodes to, so a
copy that tells nothing stands in the way of those that do.
-/

set_option autoImplicit false

namespace EvidencePages.Ewf

variable {store : FileStore} {paths : List Path}

namespace Visited

def sections (file : Visited) : List Descriptor := SectionChain.sections file.bytes file.count

def header? (file : Visited) (wide : Bool) : Option Descriptor :=
  file.sections.find? (SectionChain.kindIs (.header wide))

/-- The header that is taken, with its encoding. -/
def taken? (file : Visited) : Option (Bool × Descriptor) :=
  ((file.header? true).map (true, ·)).or ((file.header? false).map (false, ·))

def caseInfo? (file : Visited) : Option CaseInfo :=
  file.taken?.map fun (wide, d) => SectionChain.caseInfoOf file.bytes wide d

/-- A visited header that decodes to a table with some value in it. -/
structure Tells (file : Visited) (wide : Bool) (d : Descriptor) : Prop where
  visited : d ∈ file.sections
  kind : d.kind = .header wide
  filled : (SectionChain.caseInfoOf file.bytes wide d).isEmpty = false

/-! ## One file -/

theorem caseInfo?_eq (file : Visited) (segment : Nat) :
    (SectionChain.gathered file.bytes segment file.count).wideHeader.or
      (SectionChain.gathered file.bytes segment file.count).header = file.caseInfo? := by
  rw [SectionChain.gathered, ← sections, ← header?, ← header?, caseInfo?, taken?]
  cases file.header? true with
  | some d => rfl
  | none => cases file.header? false <;> rfl

theorem mem_of_header? {file : Visited} {wide : Bool} {d : Descriptor}
    (found : file.header? wide = some d) : d ∈ file.sections ∧ d.kind = .header wide :=
  ⟨List.mem_of_find?_eq_some found,
    of_decide_eq_true (List.find?_some (p := SectionChain.kindIs (.header wide)) found)⟩

theorem mem_of_taken? {file : Visited} {wide : Bool} {d : Descriptor}
    (taken : file.taken? = some (wide, d)) : d ∈ file.sections ∧ d.kind = .header wide := by
  unfold taken? at taken
  cases wideFound : file.header? true with
  | some other =>
    rw [wideFound] at taken
    cases taken
    exact mem_of_header? wideFound
  | none =>
    rw [wideFound, Option.map_none, Option.none_or] at taken
    obtain ⟨other, narrowFound, same⟩ := Option.map_eq_some_iff.mp taken
    cases same
    exact mem_of_header? narrowFound

theorem exists_taken? {file : Visited} {wide : Bool} {d : Descriptor} (visited : d ∈ file.sections)
    (kind : d.kind = .header wide) : ∃ wide' d', file.taken? = some (wide', d') := by
  have there : (file.header? wide).isSome :=
    List.find?_isSome.mpr ⟨d, visited, decide_eq_true kind⟩
  obtain ⟨other, found⟩ := Option.isSome_iff_exists.mp there
  unfold taken?
  cases wideFound : file.header? true with
  | some first => exact ⟨true, first, rfl⟩
  | none =>
    cases wide with
    | true => rw [wideFound] at found; cases found
    | false => exact ⟨false, other, by rw [found]; rfl⟩

theorem eq_of_isPart {file other : Visited} {index : Nat} (part : file.IsPart store paths index)
    (also : other.IsPart store paths index)
    (cut : SectionChain.Cut file.bytes maxSections file.count)
    (cut' : SectionChain.Cut other.bytes maxSections other.count) : file = other := by
  obtain ⟨id, fetched, content⟩ := part
  obtain ⟨id', fetched', content'⟩ := also
  rw [fetched] at fetched'
  cases fetched'
  obtain ⟨bytes, count⟩ := file
  obtain ⟨bytes', count'⟩ := other
  obtain rfl : bytes = bytes' := content.symm.trans content'
  obtain rfl : count' = count := cut.unique cut'
  rfl

end Visited

/-! ## Headers that are laid out -/

namespace SectionChain.LaidOut

variable {bytes : ByteArray} {contents : List Content} {number : Nat} {content : Content}

theorem caseInfoOf_eq (laid : LaidOut bytes contents) (small : bytes.size < 1 <<< 31)
    (found : contents[number]? = some content) (short : content.data.size ≤ maxHeaderLength)
    (wide : Bool) :
    caseInfoOf bytes wide (descriptor bytes number) = .decode wide content.data := by
  have inside := laid.inside found
  have length : (descriptor bytes number).dataSize = content.data.size := by
    obtain ⟨next, same⟩ := laid.descriptor_eq found
    rw [same]
    exact dataSize_descriptorAt (by rw [Content.size]; omega) next
  rw [caseInfoOf, headerLength, laid.toNat_dataOffset_eq small found, length,
    Nat.min_eq_left short, (laid.stands_at found).data]

theorem tells {count : Nat} {wide : Bool} (laid : LaidOut bytes contents)
    (small : bytes.size < 1 <<< 31) (found : contents[number]? = some content)
    (kind : content.kind = .header wide) (before : number < count)
    (short : content.data.size ≤ maxHeaderLength)
    (filled : (CaseInfo.decode wide content.data).isEmpty = false) :
    (Visited.mk bytes count).Tells wide (descriptor bytes number) where
  visited := List.mem_map_of_mem (List.mem_range.mpr before)
  kind := (laid.kind_eq found).trans kind
  filled := by rw [laid.caseInfoOf_eq small found short, filled]

end SectionChain.LaidOut

/-! ## All files -/

theorem addSegment_caseInfo {opening next : Opening} (sound : opening.pool.Sound store)
    (countable : Countable store opening.pool.paths) {index : Nat} {file : Visited}
    (part : file.IsPart store opening.pool.paths index) (whole : file.Sound)
    (added : addSegment store index opening = .ok next) :
    next.caseInfo = opening.caseInfo.or file.caseInfo? := by
  rw [addSegment_eq sound] at added
  split at added
  · cases added
  rename_i size taken there
  cases added
  obtain ⟨other, part', whole', -, rfl⟩ := segmentAt_eq_ok countable there
  obtain rfl := Visited.eq_of_isPart part part' whole.cut whole'.cut
  rw [Opening.adding, Visited.caseInfo?_eq]

theorem addSegments_caseInfo {files : List Visited} {index : Nat} {opening last : Opening}
    (sound : opening.pool.Sound store) (countable : Countable store opening.pool.paths)
    (parts : ∀ (place : Nat) (file : Visited), files[place]? = some file →
      file.IsPart store opening.pool.paths (index + place))
    (whole : ∀ file ∈ files, file.Sound)
    (added : addSegments store files.length index opening = .ok last) :
    last.caseInfo = opening.caseInfo.or (files.findSome? Visited.caseInfo?) := by
  induction files generalizing index opening with
  | nil =>
    cases added
    exact Option.or_none.symm
  | cons file rest ih =>
    rw [List.length_cons, addSegments] at added
    split at added
    · cases added
    rename_i next step
    obtain ⟨kept, other, adds⟩ := addSegment_adds sound countable step
    have same := adds.paths
    have first := addSegment_caseInfo sound countable (parts 0 file rfl)
      (whole file List.mem_cons_self) step
    have behind : ∀ (place : Nat) (other : Visited), rest[place]? = some other →
        other.IsPart store next.pool.paths (index + 1 + place) := by
      intro place other found
      rw [same, Nat.add_right_comm]
      exact parts (place + 1) other found
    rw [ih kept (same ▸ countable) behind
      (fun other listed => whole other (List.mem_cons_of_mem file listed)) added, first,
      Option.or_assoc, List.findSome?_cons]
    cases file.caseInfo? <;> rfl

namespace Reader

theorem MadeFrom.caseInfo {files : List Visited} {opened : Reader}
    (made : MadeFrom store paths files opened) (countable : Countable store paths) {maxOpen : Nat}
    (success : openParts store paths maxOpen = .ok opened) :
    opened.caseInfo = (files.findSome? Visited.caseInfo?).getD {} := by
  obtain ⟨-, opening, added, opens⟩ := openParts_eq_ok_iff.mp success
  rw [← made.length] at added
  have told := addSegments_caseInfo (HandlePool.sound_ofPaths store paths maxOpen) countable
    (fun place file found => by rw [Nat.zero_add]; exact made.parts place file found)
    made.sound added
  obtain ⟨volume, -, -, rfl⟩ := ofOpening_eq_ok_iff.mp opens
  exact congrArg (·.getD {}) told

theorem MadeFrom.exists_first {files : List Visited} {opened : Reader}
    (made : MadeFrom store paths files opened) {maxOpen : Nat}
    (success : openParts store paths maxOpen = .ok opened) :
    ∃ first rest, files = first :: rest := by
  apply List.exists_cons_of_ne_nil
  rintro rfl
  have none : paths = [] := List.length_eq_zero_iff.mp made.length.symm
  rw [none] at success
  cases success

theorem MadeFrom.eq_singleton {path : Path} {files : List Visited} {opened : Reader}
    (made : MadeFrom store [path] files opened) {file : Visited}
    (part : file.IsPart store [path] 0)
    (cut : SectionChain.Cut file.bytes maxSections file.count) : files = [file] := by
  obtain ⟨other, rfl⟩ := List.length_eq_one_iff.mp made.length
  rw [Visited.eq_of_isPart (made.parts 0 other rfl) part
    (made.sound other (List.mem_singleton_self other)).cut cut]

/-- If some header of the first file tells something, the reader does just when the header that is
taken is such a one. -/
theorem case_info_shown_iff (countable : Countable store paths) {maxOpen : Nat}
    {opened reader : Reader} (success : openParts store paths maxOpen = .ok opened)
    (reached : Reached opened reader) :
    (∃ files, MadeFrom store paths files opened) ∧
      ∀ files, MadeFrom store paths files opened →
        ∃ first, files[0]? = some first ∧
          reader.caseInfo = (files.findSome? Visited.caseInfo?).getD {} ∧
          ((∃ wide d, first.Tells wide d) →
            (reader.caseInfo.isEmpty = false ↔
              ∃ wide d, first.taken? = some (wide, d) ∧ first.Tells wide d)) := by
  refine ⟨exists_madeFrom countable success, fun files made => ?_⟩
  obtain ⟨first, rest, rfl⟩ := made.exists_first success
  obtain ⟨handles, chunks, rfl⟩ := reached.frame
  have same : (opened.remembering handles chunks).caseInfo = opened.caseInfo := rfl
  have told := made.caseInfo countable success
  refine ⟨first, rfl, told, ?_⟩
  rintro ⟨wide, d, tells⟩
  obtain ⟨wide', d', taken⟩ := Visited.exists_taken? tells.visited tells.kind
  obtain ⟨visited, kind⟩ := Visited.mem_of_taken? taken
  have shown : opened.caseInfo = SectionChain.caseInfoOf first.bytes wide' d' := by
    rw [told, List.findSome?_cons, Visited.caseInfo?, taken]
    rfl
  rw [same, shown]
  constructor
  · exact fun filled => ⟨wide', d', taken, visited, kind, filled⟩
  · rintro ⟨wide'', d'', taken', also⟩
    cases taken.symm.trans taken'
    exact also.filled

/-! ## A damaged copy and a readable one -/

def caseText : String := "c\tn\n42\t7"

def copies (narrow wide : ByteArray) : List Content :=
  [⟨"header2", wide⟩, ⟨"header", narrow⟩, ⟨"volume", volumeSection 0 1 512 1⟩]

def copiesFile (narrow wide : ByteArray) : ByteArray :=
  Acquisition.fileHeader 0 ++
    Content.laidOut fileHeaderSize (copies narrow wide ++ [SectionChain.done])

def copiesStore (narrow wide : ByteArray) : FileStore :=
  { loneStore .empty with contents := #[copiesFile narrow wide] }

def copiesSegment (narrow wide : ByteArray) : Visited := ⟨copiesFile narrow wide, 4⟩

def copy (narrow wide : ByteArray) (number : Nat) : Descriptor :=
  SectionChain.descriptor (copiesFile narrow wide) number

def torn : ByteArray := ofBytes [0x78, 0x01]

def narrowCopy : ByteArray := Zlib.plainStream caseText.toUTF8

def wideCopy : ByteArray := Zlib.plainStream (CaseInfo.wideBytes true caseText.toList)

section Copies

variable {narrow wide : ByteArray} (short : narrow.size + wide.size < 1000)

include short

theorem size_copiesFile_lt : (copiesFile narrow wide).size < 1 <<< 31 := by
  have header : (Acquisition.fileHeader 0).size = 13 := rfl
  have volume : (volumeSection 0 1 512 1).size = 24 := rfl
  have size : (copiesFile narrow wide).size = 341 + wide.size + narrow.size := by
    rw [copiesFile, ByteArray.size_append, Content.size_laidOut, header, copies]
    simp only [List.cons_append, List.nil_append, Content.totalSize_cons, Content.totalSize_nil,
      Content.size, volume, SectionChain.done, Descriptor.length, ByteArray.size_empty]
    omega
  rw [size, Nat.one_shiftLeft]
  omega

theorem laidOut_copies :
    SectionChain.LaidOut (copiesFile narrow wide) (copies narrow wide ++ [SectionChain.done]) where
  stands := ⟨Acquisition.fileHeader 0, rfl, rfl⟩
  short := Nat.lt_trans (size_copiesFile_lt short) (by decide)

theorem cut_copies : SectionChain.Cut (copiesSegment narrow wide).bytes maxSections
    (copiesSegment narrow wide).count := by
  refine ((laidOut_copies short).ends (fun content listed => ?_) rfl).cut maxSections
  rw [copies, List.mem_cons, List.mem_cons, List.mem_singleton] at listed
  rcases listed with rfl | rfl | rfl
  · simp
  · simp
  · simp

theorem taken_copies :
    (copiesSegment narrow wide).taken? = some (true, copy narrow wide 0) := by
  have found : (copies narrow wide ++ [SectionChain.done])[0]? = some ⟨"header2", wide⟩ := rfl
  have kind : (copy narrow wide 0).kind = .header true :=
    ((laidOut_copies short).kind_eq found).trans (Acquisition.kind_wideHeader wide)
  have first : (copiesSegment narrow wide).header? true = some (copy narrow wide 0) :=
    List.find?_cons_of_pos (decide_eq_true kind)
  rw [Visited.taken?, first]
  rfl

theorem caseInfo?_copies :
    (copiesSegment narrow wide).caseInfo? = some (.decode true wide) := by
  have found : (copies narrow wide ++ [SectionChain.done])[0]? = some ⟨"header2", wide⟩ := rfl
  have limit : maxHeaderLength = 1048576 := rfl
  have own := (laidOut_copies short).caseInfoOf_eq (size_copiesFile_lt short) found
    (show wide.size ≤ maxHeaderLength by omega) true
  rw [Visited.caseInfo?, taken_copies short, Option.map_some]
  exact congrArg some own

theorem countable_copies : Countable (copiesStore narrow wide) [⟨"case.E01"⟩] := by
  intro path listed
  obtain rfl := List.mem_singleton.mp listed
  exact (laidOut_copies short).short

theorem madeFrom_copies {maxOpen : Nat} {opened : Reader}
    (success : openParts (copiesStore narrow wide) [⟨"case.E01"⟩] maxOpen = .ok opened) :
    MadeFrom (copiesStore narrow wide) [⟨"case.E01"⟩] [copiesSegment narrow wide] opened := by
  obtain ⟨files, made⟩ := exists_madeFrom (countable_copies short) success
  have part : (copiesSegment narrow wide).IsPart (copiesStore narrow wide) [⟨"case.E01"⟩] 0 :=
    ⟨0, rfl, rfl⟩
  rwa [made.eq_singleton part (cut_copies short)] at made

end Copies

theorem short_wide : torn.size + wideCopy.size < 1000 := by decide +kernel

theorem short_narrow : narrowCopy.size + torn.size < 1000 := by decide +kernel

theorem tells_wide : (copiesSegment torn wideCopy).Tells true (copy torn wideCopy 0) := by
  refine (laidOut_copies short_wide).tells (size_copiesFile_lt short_wide) rfl rfl
    (by decide) (by decide +kernel) ?_
  dsimp only
  rw [wideCopy, CaseInfo.decode_wideBytes Zlib.decode?_plainStream]
  decide

theorem tells_narrow : (copiesSegment narrowCopy torn).Tells false (copy narrowCopy torn 1) := by
  refine (laidOut_copies short_narrow).tells (size_copiesFile_lt short_narrow) rfl rfl
    (by decide) (by decide +kernel) ?_
  dsimp only
  rw [narrowCopy, CaseInfo.decode_toUTF8 Zlib.decode?_plainStream]
  decide

theorem case_info_shown_torn_narrow :
    Countable (copiesStore torn wideCopy) [⟨"case.E01"⟩] ∧
      ∃ opened, openParts (copiesStore torn wideCopy) [⟨"case.E01"⟩] 1 = .ok opened ∧
        Reached opened opened ∧
        MadeFrom (copiesStore torn wideCopy) [⟨"case.E01"⟩] [copiesSegment torn wideCopy] opened ∧
        (copiesSegment torn wideCopy).Tells true (copy torn wideCopy 0) ∧
        opened.caseInfo.isEmpty = false := by
  have countable := countable_copies short_wide
  obtain ⟨opened, success, -⟩ := exists_of_opensTo (copiesStore torn wideCopy) [⟨"case.E01"⟩] 1
    (fun _ => true) (by decide +kernel)
  have made := madeFrom_copies short_wide success
  obtain ⟨-, shown⟩ := case_info_shown_iff countable success Reached.opened
  obtain ⟨first, there, -, shown_iff⟩ := shown _ made
  cases there
  exact ⟨countable, opened, success, Reached.opened, made, tells_wide,
    (shown_iff ⟨true, _, tells_wide⟩).mpr ⟨true, _, taken_copies short_wide, tells_wide⟩⟩

/-- A damaged copy in wide characters hides the case and evidence numbers that the other one
tells. -/
theorem case_info_hidden_torn_wide :
    ∃ opened, openParts (copiesStore narrowCopy torn) [⟨"case.E01"⟩] 1 = .ok opened ∧
      MadeFrom (copiesStore narrowCopy torn) [⟨"case.E01"⟩] [copiesSegment narrowCopy torn]
        opened ∧
      (copiesSegment narrowCopy torn).Tells false (copy narrowCopy torn 1) ∧
      opened.caseInfo.isEmpty = true := by
  obtain ⟨opened, success, -⟩ := exists_of_opensTo (copiesStore narrowCopy torn) [⟨"case.E01"⟩] 1
    (fun _ => true) (by decide +kernel)
  have made := madeFrom_copies short_narrow success
  refine ⟨opened, success, made, tells_narrow, ?_⟩
  rw [made.caseInfo (countable_copies short_narrow) success, List.findSome?_singleton,
    caseInfo?_copies short_narrow, Option.getD_some]
  decide +kernel

end Reader

end EvidencePages.Ewf
