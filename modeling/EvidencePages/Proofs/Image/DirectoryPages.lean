import EvidencePages.Proofs.Image.Cursors
import EvidencePages.Proofs.Store.ReachedPaths

/-!
# Pages of a directory

A directory lists the files that are met below it, each once, links to files
among them. A walk over its pages yields one item for each, which is the whole
file; only a path that is too long to be opened gives an error instead.
-/

set_option autoImplicit false

namespace EvidencePages

namespace DirectoryImage

variable {store : FileStore} {root : Path} {top : Location} {names : List String} {node : Node}
  {path : Path}

/-- A file below a directory, by the path that it is listed with: a file that is met, or what a
link that is met leads to. -/
inductive Lists (store : FileStore) (root : Path) (top : Location) : Path → Nat → Prop
  | regular {path : Path} {place : Location} {file : Nat}
    (reached : store.Reaches root top path place)
    (there : store.node? place = some (.regular file)) : Lists store root top path file
  | linked {path target : Path} {place : Location} {file : Nat}
    (reached : store.Reaches root top path place)
    (there : store.node? place = some (.link target))
    (leads : store.find path = .ok (.regular file)) : Lists store root top path file

/-! ## What is listed -/

theorem met?_eq_some {entry : Location × Node} :
    met? store root top entry = some (names, node) ↔
      names ≠ [] ∧ entry = (names.reverse ++ top, node) ∧
        canRead store root top names.dropLast = true := by
  obtain ⟨location, held⟩ := entry
  rw [met?]
  constructor
  · intro met
    split at met
    · cases met
    · rename_i below
      split at met
      · rename_i readable
        cases met
        obtain ⟨some, rfl⟩ := below?_eq_some.mp below
        exact ⟨some, rfl, readable⟩
      · cases met
  · rintro ⟨some, same, readable⟩
    cases same
    rw [below?_eq_some.mpr ⟨some, rfl⟩]
    exact if_pos readable

theorem pairwise_entriesBelow (tree : store.IsTree) :
    (entriesBelow store root top).Pairwise fun entry other => entry.1 ≠ other.1 := by
  have distinct := List.pairwise_map.mp tree.distinct
  rw [entriesBelow, List.pairwise_filterMap]
  refine distinct.imp ?_
  rintro entry other different ⟨names, node⟩ met ⟨names', node'⟩ met' same
  obtain ⟨-, rfl, -⟩ := met?_eq_some.mp met
  obtain ⟨-, rfl, -⟩ := met?_eq_some.mp met'
  exact different (congrArg (·.reverse ++ top) same)

theorem file?_eq_some {entry : List String × Node} (told : file? store root entry = some path) :
    path = pathBelow root entry.1 := by
  obtain ⟨names, node⟩ := entry
  cases node with
  | regular file =>
    cases told
    rfl
  | link target =>
    rw [file?] at told
    split at told
    · cases told
      rfl
    · cases told
  | directory => cases told
  | device kind => cases told

section Listed

variable (tree : store.IsTree) (named : store.IsNamed) (nonempty : root.text ≠ "")

include tree named nonempty

theorem mem_entriesBelow :
    (names, node) ∈ entriesBelow store root top ↔
      names ≠ [] ∧ store.Reaches root top (pathBelow root names) (names.reverse ++ top) ∧
        store.node? (names.reverse ++ top) = some node := by
  rw [entriesBelow, List.mem_filterMap]
  constructor
  · rintro ⟨entry, listed, met⟩
    obtain ⟨some, rfl, readable⟩ := met?_eq_some.mp met
    have held : store.node? (names.reverse ++ top) = .some node := by
      rw [FileStore.node?, if_neg (by simp [some])]
      exact lookup_of_mem tree.distinct listed
    exact ⟨some, FileStore.reaches_pathBelow tree nonempty names (by rw [held]; rfl)
      fun _ => readable, held⟩
  · rintro ⟨some, reached, held⟩
    obtain ⟨others, -, place, -, readable⟩ := reached.exists_names named
    obtain rfl : names = others := List.reverse_injective (List.append_cancel_right place)
    rw [FileStore.node?, if_neg (by simp [some])] at held
    obtain ⟨front, back, entries, -⟩ := List.lookup_eq_some_iff.mp held
    refine ⟨(names.reverse ++ top, node), ?_, met?_eq_some.mpr ⟨some, rfl, readable some⟩⟩
    rw [entries]
    exact List.mem_append_right _ List.mem_cons_self

theorem isName_of_mem (listed : (names, node) ∈ entriesBelow store root top) :
    ∀ name ∈ names, IsName name := by
  obtain ⟨-, reached, -⟩ := (mem_entriesBelow tree named nonempty).mp listed
  obtain ⟨others, -, place, legal, -⟩ := reached.exists_names named
  rwa [List.reverse_injective (List.append_cancel_right place)]

theorem exists_entry (directory : store.node? top = some .directory) {place : Location}
    (reached : store.Reaches root top path place) (held : store.node? place = some node)
    (plain : node ≠ .directory) :
    ∃ names, path = pathBelow root names ∧ (names, node) ∈ entriesBelow store root top := by
  obtain ⟨names, rfl, rfl, -, -⟩ := reached.exists_names named
  refine ⟨names, rfl, (mem_entriesBelow tree named nonempty).mpr ⟨?_, reached, held⟩⟩
  rintro rfl
  exact plain (Option.some.inj (held.symm.trans directory))

theorem mem_filterMap_file? (directory : store.node? top = some .directory) :
    path ∈ (entriesBelow store root top).filterMap (file? store root) ↔
      ∃ file, Lists store root top path file := by
  rw [List.mem_filterMap]
  constructor
  · rintro ⟨⟨names, node⟩, listed, told⟩
    obtain ⟨-, reached, held⟩ := (mem_entriesBelow tree named nonempty).mp listed
    cases node with
    | directory => cases told
    | device kind => cases told
    | regular file =>
      cases told
      exact ⟨file, .regular reached held⟩
    | link target =>
      rw [file?] at told
      split at told
      · rename_i leads
        cases told
        obtain ⟨file, leads⟩ := FileStore.isFile_iff.mp leads
        exact ⟨file, .linked reached held leads⟩
      · cases told
  · rintro ⟨file, lists⟩
    cases lists with
    | regular reached there =>
      obtain ⟨names, rfl, listed⟩ := exists_entry tree named nonempty directory reached there
        (fun same => by cases same)
      exact ⟨_, listed, rfl⟩
    | linked reached there leads =>
      obtain ⟨names, rfl, listed⟩ := exists_entry tree named nonempty directory reached there
        (fun same => by cases same)
      exact ⟨_, listed, if_pos (FileStore.isFile_iff.mpr ⟨file, leads⟩)⟩

theorem nodup_filterMap_file? :
    ((entriesBelow store root top).filterMap (file? store root)).Nodup := by
  rw [List.Nodup, List.pairwise_filterMap]
  refine (pairwise_entriesBelow tree).imp_of_mem ?_
  rintro ⟨names, node⟩ ⟨names', node'⟩ listed listed' different path told path' told' same
  rw [file?_eq_some told, file?_eq_some told'] at same
  exact different (pathBelow_injective nonempty (isName_of_mem tree named nonempty listed)
    (isName_of_mem tree named nonempty listed') same)

end Listed

theorem scan_eq (resolved : store.resolve root = .ok top)
    (directory : store.node? top = some .directory) :
    (scan store root).1 = ⟨root, (entriesBelow store root top).filterMap (file? store root)⟩ := by
  rw [scan, resolved]
  dsimp only
  rw [directory]

/-! ## Pages of listed files -/

def pageOf (store : FileStore) (path : Path) : Except ImageError Page :=
  match mappedContent store path with
  | .error cause => .error (.read 0 (.map path cause))
  | .ok bytes => .ok (.ofFile path bytes)

theorem readPage_of_fileAt {image : DirectoryImage} {cursor : Cursor}
    (there : image.fileAt cursor = some path) :
    image.readPage store cursor = (pageOf store path).map some := by
  rw [readPage, there]
  dsimp only
  rw [pageOf]
  cases mappedContent store path <;> rfl

theorem pageOf_of_find {file : Nat} (leads : store.find path = .ok (.regular file)) :
    pageOf store path = .ok (.ofFile path (store.content file)) := by
  rw [pageOf, mappedContent, FileStore.openFile_of_find_regular leads]
  rfl

theorem pageOf_of_fault {cause : IoError} (fault : FileStore.pathFault? path = some cause) :
    pageOf store path = .error (.read 0 (.map path cause)) := by
  have failed : store.find path = .error cause := by
    rw [FileStore.find, FileStore.resolve, FileStore.reach, FileStore.walkFrom, fault]
  rw [pageOf, mappedContent, FileStore.openFile_of_find_error failed]

theorem page_ofFile (path : Path) (bytes : ByteArray) :
    (Page.ofFile path bytes).position = .inFile path ∧ (Page.ofFile path bytes).bytes = bytes ∧
      (Page.ofFile path bytes).active = bytes ∧ (Page.ofFile path bytes).margin = .empty := by
  refine ⟨rfl, rfl, ?_, ?_⟩
  · exact ByteArray.extract_zero_size
  · exact ByteArray.extract_same

section Pages

variable (named : store.IsNamed) (resolved : store.resolve root = .ok top)

include named resolved

theorem Lists.find {file : Nat} (lists : Lists store root top path file)
    (fine : FileStore.pathFault? path = none) : store.find path = .ok (.regular file) := by
  cases lists with
  | linked reached there leads => exact leads
  | regular reached there =>
    have place := reached.resolve named resolved fine there fun target same => by cases same
    rw [FileStore.find, place]
    dsimp only
    rw [there]

theorem Lists.pathFault?_eq {file : Nat} (lists : Lists store root top path file) :
    FileStore.pathFault? path =
      if FileStore.maxPathSize < path.text.utf8ByteSize then some .nameTooLong else none := by
  have fine := FileStore.pathFault?_eq_none_iff.mp (FileStore.fine_of_resolve resolved)
  obtain ⟨place, reached⟩ : ∃ place, store.Reaches root top path place := by
    cases lists with
    | regular reached there => exact ⟨_, reached⟩
    | linked reached there leads => exact ⟨_, reached⟩
  obtain ⟨nonempty, sound⟩ := reached.sound named ⟨fine.1, fine.2.1⟩
  rw [FileStore.pathFault?, if_neg nonempty, if_neg sound]

end Pages

end DirectoryImage

namespace PageWalk

theorem take_directory (store : FileStore) (image : DirectoryImage) (config : Config)
    (limit index : Nat) :
    (take store limit ⟨⟨.directory image, config⟩, (Paging.files image.count).cursorAt index⟩).1 =
      ((image.files.drop index).take limit).map (DirectoryImage.pageOf store) := by
  induction limit generalizing index with
  | zero => rfl
  | succ limit ih =>
    rw [take, next]
    have ended : ((Paging.files image.count).cursorAt index).atEnd = true ↔ image.count ≤ index :=
      Paging.atEnd_cursorAt rfl index
    by_cases past : image.count ≤ index
    · rw [if_pos (ended.mpr past), List.drop_eq_nil_of_le past]
      rfl
    · have inside : index < image.files.length := Nat.lt_of_not_le past
      have there : image.fileAt ((Paging.files image.count).cursorAt index) =
          some image.files[index] := by
        have place : image.indexOf ((Paging.files image.count).cursorAt index) = index := by
          show min (min index image.count) image.count = index
          omega
        rw [DirectoryImage.fileAt, place, List.getElem?_eq_getElem inside]
      have step : (Backend.directory image).advance ((Paging.files image.count).cursorAt index) =
          (Paging.files image.count).cursorAt (index + 1) :=
        (Backend.directory image).advance_cursorAt index
      rw [if_neg fun h => past (ended.mp h), List.drop_eq_getElem_cons inside, List.take_succ_cons,
        List.map_cons, ← ih (index + 1), ← step]
      simp only [Image.readPage, Backend.readPage, Outcome.on,
        DirectoryImage.readPage_of_fileAt there]
      cases DirectoryImage.pageOf store image.files[index] <;> rfl

end PageWalk

namespace DirectoryImage

variable {store : FileStore} {root : Path} {top : Location}

/-- In a tree of directories, files and links, a directory lists once each the files and links to
files that are met below it, through directories that can be read, and nothing else. A walk over
them yields one item for each: the whole file, whether it is empty or not, or the error that its
path is too long to be opened. -/
theorem walk_reads_reached_files (tree : store.IsTree) (named : store.IsNamed)
    (resolved : store.resolve root = .ok top) (directory : store.node? top = some .directory)
    (config : Config) :
    let image := (scan store root).1
    image.root = root ∧ image.files.Nodup ∧
    (∀ path, path ∈ image.files ↔ ∃ file, Lists store root top path file) ∧
    Image.blockCount ⟨.directory image, config⟩ = image.files.length ∧
    (∀ limit, (PageWalk.take store limit (PageWalk.start ⟨.directory image, config⟩)).1 =
      (image.files.take limit).map (pageOf store)) ∧
    ∀ path file, Lists store root top path file →
      (path.text.utf8ByteSize ≤ FileStore.maxPathSize → ∃ page, pageOf store path = .ok page ∧
        page.position = .inFile path ∧ page.bytes = store.content file ∧
        page.active = store.content file ∧ page.margin = .empty) ∧
      (FileStore.maxPathSize < path.text.utf8ByteSize →
        pageOf store path = .error (.read 0 (.map path .nameTooLong))) := by
  have nonempty := (FileStore.pathFault?_eq_none_iff.mp (FileStore.fine_of_resolve resolved)).1
  have listed := scan_eq resolved directory
  refine ⟨by rw [listed], ?_, fun path => ?_, rfl, fun limit => ?_, fun path file lists => ⟨?_, ?_⟩⟩
  · rw [listed]
    exact nodup_filterMap_file? tree named nonempty
  · rw [listed]
    exact mem_filterMap_file? tree named nonempty directory
  · rw [PageWalk.start, Backend.first_eq_cursorAt]
    exact PageWalk.take_directory store _ config limit 0
  · intro short
    have fine := (lists.pathFault?_eq named resolved).trans (if_neg (Nat.not_lt_of_le short))
    exact ⟨_, pageOf_of_find (lists.find named resolved fine), page_ofFile path _⟩
  · intro long
    exact pageOf_of_fault ((lists.pathFault?_eq named resolved).trans (if_pos long))

/-- A directory with a file, an empty file further down, and links to a file, to a directory and to
nothing. -/
def nested : FileStore where
  entries := [
    (["work"], .directory),
    (["t", "work"], .directory),
    (["note", "t", "work"], .regular 0),
    (["sub", "t", "work"], .directory),
    (["empty", "sub", "t", "work"], .regular 1),
    (["again", "t", "work"], .link ⟨"sub/../note"⟩),
    (["below", "t", "work"], .link ⟨"sub"⟩),
    (["gone", "t", "work"], .link ⟨"nothing"⟩)]
  contents := #[ofBytes [1, 2], .empty]
  workingDirectory := ["work"]

theorem walk_reads_nested :
    nested.IsTree ∧ nested.IsNamed ∧ nested.resolve ⟨"t"⟩ = .ok ["t", "work"] ∧
      nested.node? ["t", "work"] = some .directory ∧
      (scan nested ⟨"t"⟩).1.files = [⟨"t/note"⟩, ⟨"t/sub/empty"⟩, ⟨"t/again"⟩] ∧
      (∃ file, Lists nested ⟨"t"⟩ ["t", "work"] ⟨"t/again"⟩ file) ∧
      (PageWalk.take nested 9 (PageWalk.start ⟨.directory (scan nested ⟨"t"⟩).1, {}⟩)).1 =
        [.ok (.ofFile ⟨"t/note"⟩ (ofBytes [1, 2])), .ok (.ofFile ⟨"t/sub/empty"⟩ .empty),
          .ok (.ofFile ⟨"t/again"⟩ (ofBytes [1, 2]))] := by
  have tree : nested.IsTree := ⟨by decide +kernel, by decide +kernel, rfl⟩
  have named : nested.IsNamed := by decide +kernel
  have resolved : nested.resolve ⟨"t"⟩ = .ok ["t", "work"] := by rfl
  have directory : nested.node? ["t", "work"] = some .directory := by rfl
  have files : (scan nested ⟨"t"⟩).1.files = [⟨"t/note"⟩, ⟨"t/sub/empty"⟩, ⟨"t/again"⟩] := by
    decide +kernel
  obtain ⟨-, -, listed, -, walked, -⟩ := walk_reads_reached_files tree named resolved directory {}
  refine ⟨tree, named, resolved, directory, files, (listed _).mp ?_, ?_⟩
  · rw [files]
    decide
  · rw [walked, files]
    rfl

/-- The directory `t`, with so many slashes behind its name. -/
def slashed (count : Nat) : Path := ⟨String.ofList ('t' :: List.replicate count '/')⟩

theorem size_slashed (count : Nat) : (slashed count).text.utf8ByteSize = count + 1 := by
  have slashes : String.utf8Len (List.replicate count '/') = count := by
    induction count with
    | zero => rfl
    | succ count ih =>
      rw [List.replicate_succ, String.utf8Len_cons, ih]
      rfl
  rw [slashed, String.utf8ByteSize_ofList, String.utf8Len_cons, slashes]
  rfl

theorem pathFault?_slashed {count : Nat} (short : count < FileStore.maxPathSize) :
    FileStore.pathFault? (slashed count) = none := by
  rw [FileStore.pathFault?_eq_none_iff, size_slashed]
  refine ⟨?_, ?_, short⟩
  · intro empty
    have chars := congrArg String.toList empty
    rw [slashed, String.toList_ofList] at chars
    cases chars
  · rw [slashed, String.toList_ofList]
    intro inside
    rcases List.mem_cons.mp inside with letter | slash
    · cases letter
    · cases List.eq_of_mem_replicate slash

theorem pieces_slashes (count : Nat) :
    Text.pieces '/' (List.replicate count '/') = List.replicate (count + 1) [] := by
  induction count with
  | zero => rfl
  | succ count ih => rw [List.replicate_succ, Text.pieces, if_pos rfl, ih, ← List.replicate_succ]

section Slashed

variable {count : Nat} (some : 0 < count)

include some

theorem getLast?_slashed : (slashed count).text.toList.getLast? = .some '/' := by
  obtain ⟨count, rfl⟩ := Nat.exists_eq_succ_of_ne_zero (Nat.ne_of_gt some)
  rw [slashed, String.toList_ofList, List.replicate_succ', ← List.cons_append]
  exact List.getLast?_concat

theorem size_join_slashed (name : String) :
    ((slashed count).join name).text.utf8ByteSize = count + 1 + name.utf8ByteSize := by
  have nonempty : (slashed count).text ≠ "" := by
    intro empty
    have size := size_slashed count
    rw [empty] at size
    cases size
  rw [Path.join, if_neg nonempty, if_pos (getLast?_slashed some), String.utf8ByteSize_append,
    size_slashed]

theorem steps_slashed : FileStore.steps (slashed count) = ["t", "."] := by
  have cut : (Text.cut '/' (slashed count).text).filter (· ≠ "") = ["t"] := by
    obtain ⟨count, rfl⟩ := Nat.exists_eq_succ_of_ne_zero (Nat.ne_of_gt some)
    rw [Text.cut, slashed, String.toList_ofList, Text.pieces, if_neg (by decide), pieces_slashes,
      List.replicate_succ, List.map_cons, List.map_replicate, List.filter_cons_of_pos (by decide),
      List.filter_replicate_of_neg (by decide)]
  rw [FileStore.steps, cut, if_pos (getLast?_slashed some)]
  rfl

end Slashed

def oneFile : FileStore where
  entries := [
    (["work"], .directory),
    (["t", "work"], .directory),
    (["abc", "t", "work"], .regular 0)]
  contents := #[ofBytes [1]]
  workingDirectory := ["work"]

section Listed

variable {count : Nat} (some : 0 < count) (short : count < FileStore.maxPathSize)

include some short

theorem resolve_slashed : oneFile.resolve (slashed count) = .ok ["t", "work"] := by
  have relative : (slashed count).isAbsolute = false := by
    rw [Path.isAbsolute, slashed, String.toList_ofList]
    rfl
  rw [FileStore.resolve, FileStore.reach, FileStore.walkFrom, pathFault?_slashed short,
    steps_slashed some, FileStore.origin, relative]
  rfl

theorem files_slashed :
    (scan oneFile (slashed count)).1.files = [(slashed count).join "abc"] := by
  have readable : canRead oneFile (slashed count) ["t", "work"] [] = true :=
    canRead_iff.mpr ⟨pathFault?_slashed short, fun _ _ => rfl⟩
  have entries : entriesBelow oneFile (slashed count) ["t", "work"] =
      [(["abc"], .regular 0)] := by
    have above : below? ["t", "work"] ["work"] = none := by decide
    have own : below? ["t", "work"] ["t", "work"] = none := by decide
    have file : below? ["t", "work"] ["abc", "t", "work"] = .some ["abc"] := by decide
    have listed : oneFile.entries = [(["work"], .directory), (["t", "work"], .directory),
      (["abc", "t", "work"], .regular 0)] := rfl
    rw [entriesBelow, listed]
    simp [met?, above, own, file, readable]
  rw [scan_eq (resolve_slashed some short) rfl, entries]
  rfl

theorem pageOf_slashed (long : FileStore.maxPathSize < count + 4) :
    Lists oneFile (slashed count) ["t", "work"] ((slashed count).join "abc") 0 ∧
      pageOf oneFile ((slashed count).join "abc") =
        .error (.read 0 (.map ((slashed count).join "abc") .nameTooLong)) := by
  have reached : oneFile.Reaches (slashed count) ["t", "work"]
      ((slashed count).join "abc") ["abc", "t", "work"] :=
    .entry .root rfl (pathFault?_slashed short) rfl rfl
  have lists : Lists oneFile (slashed count) ["t", "work"] ((slashed count).join "abc") 0 :=
    .regular reached rfl
  have size : FileStore.maxPathSize < ((slashed count).join "abc").text.utf8ByteSize := by
    rw [size_join_slashed some]
    exact long
  have named : oneFile.IsNamed := by decide +kernel
  refine ⟨lists, pageOf_of_fault ?_⟩
  rw [lists.pathFault?_eq named (resolve_slashed some short), if_pos size]

end Listed

/-- A directory of one file, under a path of 4095 bytes: the file is listed, and the walk yields an
error in the place of its page. -/
theorem walk_fails_in_slashed :
    oneFile.IsTree ∧ oneFile.IsNamed ∧
      oneFile.resolve (slashed 4094) = .ok ["t", "work"] ∧
      oneFile.node? ["t", "work"] = some .directory ∧
      Lists oneFile (slashed 4094) ["t", "work"] ((slashed 4094).join "abc") 0 ∧
      (scan oneFile (slashed 4094)).1.files = [(slashed 4094).join "abc"] ∧
      (PageWalk.take oneFile 1
        (PageWalk.start ⟨.directory (scan oneFile (slashed 4094)).1, {}⟩)).1 =
        [.error (.read 0 (.map ((slashed 4094).join "abc") .nameTooLong))] := by
  have some : 0 < 4094 := by decide
  have short : 4094 < FileStore.maxPathSize := by decide
  obtain ⟨lists, failed⟩ := pageOf_slashed some short (by decide)
  have files := files_slashed some short
  refine ⟨⟨by decide +kernel, by decide +kernel, rfl⟩, by decide +kernel,
    resolve_slashed some short, rfl, lists, files, ?_⟩
  rw [PageWalk.start, Backend.first_eq_cursorAt]
  refine (PageWalk.take_directory oneFile _ {} 1 0).trans ?_
  rw [files, List.drop_zero, List.take_succ_cons, List.take_zero, List.map_singleton, failed]

end DirectoryImage

end EvidencePages
