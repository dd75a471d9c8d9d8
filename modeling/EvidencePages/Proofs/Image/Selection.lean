import EvidencePages.Image.Image
import EvidencePages.Proofs.Store.Walk

/-!
# Which backend a path calls for

A file is taken for a container by its extension, which is always that of its
name, or by a marker, which is looked for in the whole path. So a marked
directory makes a container of every file below it, whatever the name, while
the parts of a container go by their pattern only if the name itself is marked.
-/

set_option autoImplicit false

namespace EvidencePages

namespace Wildcard

theorem isMarked_iff (name : List Char) : isMarked name = true ↔ marker <:+: name := by
  induction name with
  | nil =>
    constructor
    · intro marked
      cases marked
    · intro inside
      cases List.infix_nil.mp inside
  | cons c rest ih =>
    rw [List.infix_cons_iff, ← ih, isMarked, cutAtMarker]
    split
    · rename_i starts
      exact ⟨fun _ => .inl (List.isPrefixOf_iff_prefix.mp starts), fun _ => rfl⟩
    · rename_i starts
      rw [Option.isSome_map]
      refine ⟨.inr, fun marked => marked.resolve_left fun here => ?_⟩
      exact starts (List.isPrefixOf_iff_prefix.mpr here)

def enumerated (store : FileStore) (path : Path) :
    Except ContainerError (List Path) × List Warning :=
  match parts store path with
  | .ok [] => (.error (.noParts path), [.experimentalParts])
  | other => (other, [.experimentalParts])

end Wildcard

theorem Codec.enumerate_eq_enumerated_iff (store : FileStore) (codec : Codec) (path : Path) :
    codec.enumerate store path = Wildcard.enumerated store path ↔
      Wildcard.marker <:+: (path.fileName.getD "").toList := by
  have warned : (Wildcard.enumerated store path).2 = [.experimentalParts] := by
    unfold Wildcard.enumerated
    split <;> rfl
  rw [← Wildcard.isMarked_iff]
  constructor
  · intro same
    -- only a pattern comes with the warning
    rw [← same] at warned
    unfold enumerate at warned
    cases marked : Wildcard.isMarked (path.fileName.getD "").toList with
    | true => rfl
    | false =>
      simp only [marked, Bool.false_eq_true, if_false] at warned
      split at warned <;> cases warned
  · intro marked
    unfold enumerate Wildcard.enumerated
    cases Wildcard.parts store path with
    | error cause => simp only [marked, if_true]
    | ok parts => cases parts <;> simp only [marked, if_true]

namespace Path

def EndsInE01 (name : List Char) : Prop :=
  ∃ stem extension, name = stem ++ '.' :: extension ∧ extension.map Char.toLower = ['e', '0', '1']

theorem EndsInE01.length_le {name : List Char} (ends : EndsInE01 name) : 4 ≤ name.length := by
  obtain ⟨stem, extension, rfl, lower⟩ := ends
  have three : extension.length = 3 :=
    (List.length_map Char.toLower).symm.trans (congrArg List.length lower)
  rw [List.length_append, List.length_cons]
  omega

/-- The name alone makes a container of a file. -/
def NamesContainer (path : Path) : Prop :=
  EndsInE01 (path.fileName.getD "").toList ∨
    Wildcard.marker <:+: (path.fileName.getD "").toList

def Marked (path : Path) : Prop := Wildcard.marker <:+: path.text.toList

theorem not_mem_extension {extension : List Char}
    (lower : extension.map Char.toLower = ['e', '0', '1']) :
    '.' ∉ extension ∧ '/' ∉ extension := by
  have apart : ∀ c, Char.toLower c ∉ ['e', '0', '1'] → c ∉ extension :=
    fun c other inside => other (lower ▸ List.mem_map_of_mem inside)
  exact ⟨apart '.' (by decide), apart '/' (by decide)⟩

theorem textAfterLastDot_iff (path : Path) :
    path.textAfterLastDot.toList.map Char.toLower = ['e', '0', '1'] ↔
      EndsInE01 path.text.toList := by
  rw [textAfterLastDot]
  constructor
  · intro lower
    by_cases dotted : '.' ∈ path.text.toList
    · obtain ⟨stem, extension, text, apart⟩ := Text.exists_last dotted
      rw [text, Text.cutLast_append_cons stem apart, String.toList_ofList] at lower
      exact ⟨stem, extension, text, lower⟩
    · rw [Text.cutLast_of_not_mem dotted] at lower
      cases lower
  · rintro ⟨stem, extension, text, lower⟩
    rw [text, Text.cutLast_append_cons stem (not_mem_extension lower).1, String.toList_ofList]
    exact lower

theorem endsInE01_append_cons (front last : List Char) :
    EndsInE01 (front ++ '/' :: last) ↔ EndsInE01 last := by
  constructor
  · rintro ⟨stem, extension, text, lower⟩
    rcases List.append_eq_append_iff.mp text with ⟨between, -, cut⟩ | ⟨between, -, cut⟩
    · cases between with
      | nil => cases cut
      | cons slash stem =>
        cases cut
        exact ⟨stem, extension, rfl, lower⟩
    · -- the slash would stand in the extension
      have inside : '/' ∈ '.' :: extension := cut ▸ List.mem_append_right _ List.mem_cons_self
      rcases List.mem_cons.mp inside with same | inside
      · cases same
      · exact absurd inside (not_mem_extension lower).2
  · rintro ⟨stem, extension, rfl, lower⟩
    exact ⟨front ++ '/' :: stem, extension, by rw [List.append_assoc]; rfl, lower⟩

theorem namesContainer_iff {path : Path} {before : List String} {last : String}
    (cut : Text.cut '/' path.text = before ++ [last]) (solid : isBlank last = false) :
    path.NamesContainer ↔ EndsInE01 last.toList ∨ Wildcard.marker <:+: last.toList := by
  have short : ∀ name : List Char, name.length < 4 →
      ¬(EndsInE01 name ∨ Wildcard.marker <:+: name) := by
    rintro name low (ends | inside)
    · exact absurd ends.length_le (Nat.not_le_of_lt low)
    · exact absurd inside.length_le (Nat.not_le_of_lt (Nat.lt_trans low (Nat.lt_succ_self 4)))
  rw [NamesContainer, fileName_of_cut cut solid]
  by_cases parent : last = ".."
  · rw [if_pos parent, parent]
    exact iff_of_false (short _ (by decide)) (short _ (by decide))
  · rw [if_neg parent]
    rfl

theorem namesContainer_congr {path other : Path} (same : path.fileName = other.fileName) :
    path.NamesContainer ↔ other.NamesContainer := by
  rw [NamesContainer, same]
  rfl

theorem isContainerPath_iff {path : Path} (named : path.endsInName = true) :
    Image.isContainerPath path = true ↔ path.NamesContainer ∨ path.directory.Marked := by
  obtain ⟨before, last, cut, solid⟩ := exists_cut_of_endsInName named
  have telling : ∀ component, isBlank component = true →
      ¬Wildcard.marker <:+: component.toList := by
    intro component blank inside
    rcases isBlank_iff.mp blank with rfl | rfl
    all_goals exact absurd inside.length_le (by decide)
  have ends : EndsInE01 path.text.toList ↔ EndsInE01 last.toList := by
    rcases text_of_cut cut with ⟨-, text⟩ | ⟨front, text⟩
    · rw [text]
    · rw [text, endsInE01_append_cons]
  rw [Image.isContainerPath, Bool.or_eq_true, decide_eq_true_iff, textAfterLastDot_iff, ends,
    Wildcard.isMarked_iff, infix_text_iff (by decide) telling cut solid,
    namesContainer_iff cut solid, or_assoc]
  rfl

end Path

namespace Image

variable {store : FileStore} {path : Path} {node : Node}

theorem select_of_find (there : store.find path = .ok node) (plain : node ≠ .directory)
    (recurse : Bool) (config : Config) (codec : Codec) :
    select store path recurse config (some codec) =
      (.ok (if isContainerPath path then .container { path, config, codec }
        else .raw { path, config }), []) := by
  rw [select, there]
  cases node with
  | directory => exact absurd rfl plain
  | regular file => dsimp only; split <;> rfl
  | link target => dsimp only; split <;> rfl
  | device kind => dsimp only; split <;> rfl

theorem kind_of_find (there : store.find path = .ok node) (plain : node ≠ .directory)
    (recurse : Bool) (config : Config) (codec : Codec) :
    ∃ backend, select store path recurse config (some codec) = (.ok backend, []) ∧
      (backend = .container { path, config, codec } ∧
          (path.NamesContainer ∨ path.directory.Marked) ∨
        backend = .raw { path, config } ∧
          ¬(path.NamesContainer ∨ path.directory.Marked)) ∧
      backend.kind ≠ .directory ∧
      (backend.kind = .container ↔ path.NamesContainer ∨ path.directory.Marked) := by
  have called := Path.isContainerPath_iff (FileStore.endsInName_of_find there plain)
  refine ⟨_, select_of_find there plain recurse config codec, ?_⟩
  by_cases container : isContainerPath path = true
  · rw [if_pos container]
    have calls := called.mp container
    exact ⟨.inl ⟨rfl, calls⟩, BackendKind.noConfusion, iff_of_true rfl calls⟩
  · rw [if_neg container]
    have silent := fun calls => container (called.mpr calls)
    exact ⟨.inr ⟨rfl, silent⟩, BackendKind.noConfusion,
      iff_of_false BackendKind.noConfusion silent⟩

theorem kind_eq_iff {a b : BackendKind} (bytes : a ≠ .directory) (bytes' : b ≠ .directory) :
    a = b ↔ (a = .container ↔ b = .container) := by
  cases a <;> cases b <;> simp_all

/-- A file, wherever it is, is opened as a container exactly if its name calls for it or the text of
its directory is marked. So the name alone decides for a name that calls for a container, and for
any other as long as the directory is not marked, and two places give a file of one name the same
kind exactly then. The parts of a container are found by its pattern exactly if the name is
marked, so never for one that only its directory made a container. -/
theorem kind_by_name_iff (there : store.find path = .ok node) (plain : node ≠ .directory)
    (recurse : Bool) (config : Config) (codec : Codec) :
    ∃ backend, select store path recurse config (some codec) = (.ok backend, []) ∧
      (backend = .container { path, config, codec } ∧
          (path.NamesContainer ∨ path.directory.Marked) ∨
        backend = .raw { path, config } ∧
          ¬(path.NamesContainer ∨ path.directory.Marked)) ∧
      ((backend.kind = .container ↔ path.NamesContainer) ↔
        path.NamesContainer ∨ ¬path.directory.Marked) ∧
      (∀ (elsewhere : FileStore) (other : Path) (node : Node), elsewhere.find other = .ok node →
        node ≠ .directory → other.fileName = path.fileName →
        ∃ moved, select elsewhere other recurse config (some codec) = (.ok moved, []) ∧
          (moved.kind = backend.kind ↔
            path.NamesContainer ∨ (path.directory.Marked ↔ other.directory.Marked))) ∧
      (∀ later, codec.enumerate later path = Wildcard.enumerated later path ↔
        Wildcard.marker <:+: (path.fileName.getD "").toList) ∧
      (config.validate = .ok () →
        openWith store path recurse config (some codec) = ofBackend store backend config) := by
  obtain ⟨backend, selected, called, bytes, kind⟩ :=
    kind_of_find there plain recurse config codec
  refine ⟨backend, selected, called, ?_, ?_, fun later => ?_, fun valid => ?_⟩
  · rw [kind]
    by_cases names : path.NamesContainer
    · simp only [names, true_or]
    · simp only [names, false_or, iff_false]
  · intro elsewhere other node there' plain' same
    obtain ⟨moved, selected', -, bytes', kind'⟩ :=
      kind_of_find there' plain' recurse config codec
    refine ⟨moved, selected', ?_⟩
    rw [kind_eq_iff bytes' bytes, kind, kind', Path.namesContainer_congr same]
    by_cases names : path.NamesContainer
    · simp only [names, true_or]
    · simp only [names, false_or]
      exact Iff.comm
  · exact codec.enumerate_eq_enumerated_iff later path
  · rw [openWith, valid]
    dsimp only
    rw [selected]
    rfl

/-- Two raw images of one name, one of them in a directory with a marker in its name. -/
def markedDirectory : FileStore where
  entries := [
    (["work"], .directory),
    (["disk.E01.d", "work"], .directory),
    (["disk.dd", "disk.E01.d", "work"], .regular 0),
    (["plain", "work"], .directory),
    (["disk.dd", "plain", "work"], .regular 1)]
  contents := #[ofBytes [1, 2, 3, 4, 5], ofBytes [1, 2, 3, 4, 5]]
  workingDirectory := ["work"]

theorem kind_in_plain_directory :
    markedDirectory.find ⟨"plain/disk.dd"⟩ = .ok (.regular 1) ∧
      markedDirectory.find ⟨"disk.E01.d/disk.dd"⟩ = .ok (.regular 0) ∧
      ¬(Path.mk "plain/disk.dd").NamesContainer ∧
      ∃ plain moved,
        select markedDirectory ⟨"plain/disk.dd"⟩ false {} (some .builtIn) = (.ok plain, []) ∧
        select markedDirectory ⟨"disk.E01.d/disk.dd"⟩ false {} (some .builtIn) = (.ok moved, []) ∧
        plain.kind ≠ .container ∧ moved.kind ≠ plain.kind := by
  have there : markedDirectory.find ⟨"plain/disk.dd"⟩ = .ok (.regular 1) := by rfl
  have there' : markedDirectory.find ⟨"disk.E01.d/disk.dd"⟩ = .ok (.regular 0) := by rfl
  have unmarked : ¬(Path.mk "plain/disk.dd").directory.Marked := fun inside =>
    absurd ((Wildcard.isMarked_iff _).mpr inside) (by decide +kernel)
  have marked : (Path.mk "disk.E01.d/disk.dd").directory.Marked :=
    (Wildcard.isMarked_iff _).mp (by decide +kernel)
  have silent : ¬(Path.mk "plain/disk.dd").NamesContainer := fun names =>
    absurd ((Path.isContainerPath_iff (by decide +kernel)).mpr (.inl names)) (by decide +kernel)
  obtain ⟨plain, selected, -, byName, apart, -, -⟩ :=
    kind_by_name_iff there (fun same => by cases same) false {} .builtIn
  obtain ⟨moved, selected', same⟩ :=
    apart markedDirectory ⟨"disk.E01.d/disk.dd"⟩ (.regular 0) there' (fun same => by cases same)
      (by decide +kernel)
  refine ⟨there, there', silent, plain, moved, selected, selected', fun container => ?_,
    fun alike => ?_⟩
  · exact silent ((byName.mpr (.inr unmarked)).mp container)
  · rcases same.mp alike with names | both
    · exact silent names
    · exact unmarked (both.mpr marked)

/-- The name of the raw image calls for no container, but in the marked directory it is opened as
one, with parts that the codec lists and not the pattern, and that fails. -/
theorem kind_in_marked_directory :
    markedDirectory.find ⟨"disk.E01.d/disk.dd"⟩ = .ok (.regular 0) ∧
      Config.validate {} = .ok () ∧
      ¬(Path.mk "disk.E01.d/disk.dd").NamesContainer ∧
      select markedDirectory ⟨"disk.E01.d/disk.dd"⟩ false {} (some .builtIn) =
        (.ok (.container { path := ⟨"disk.E01.d/disk.dd"⟩, config := {}, codec := .builtIn }), []) ∧
      Codec.builtIn.enumerate markedDirectory ⟨"disk.E01.d/disk.dd"⟩ =
        (.ok [⟨"disk.E01.d/disk.dd"⟩], []) ∧
      (openPath markedDirectory ⟨"plain/disk.dd"⟩ false {}).1.isOk = true ∧
      (openPath markedDirectory ⟨"disk.E01.d/disk.dd"⟩ false {}).1.isOk = false := by
  have silent : ¬(Path.mk "disk.dd").NamesContainer := fun names =>
    absurd ((Path.isContainerPath_iff (by decide +kernel)).mpr (.inl names)) (by decide +kernel)
  refine ⟨rfl, rfl, fun names => silent ?_, rfl, rfl, rfl, ?_⟩
  · exact (Path.namesContainer_congr (by decide +kernel)).mp names
  · decide +kernel

end Image

end EvidencePages
