import Mathlib.Logic.Basic
import Desugar.Command.Run

/-!
# What writing changes

A system has files, under names of its own, and a path leads to one of them. A view of a system
(`System.View`) tells which, and carries what is asked of it: a write that is not refused stores
all of its bytes in the file that the path leads to, and changes no other
(`System.Naming.Stored`).

A working directory has such a view (`Files.view`). A path can be stored to only where a directory
is, so storing makes no directory (`Files.hasDirectory_put`) and no path leads elsewhere than
before (`Files.locate?_of_store?`).
-/

namespace Desugar

/-- Names for the files of a system: the name of the one that a path leads to, and the bytes that
the file of a name has. -/
structure System.Naming (system : System) where
  Name : Type
  leads? : system.State → Text → Option Name
  content? : system.State → Name → Option ByteArray

/-- The state `after` is the state `before` with bytes stored in the file that a path leads to,
and with every other file as it was. -/
def System.Naming.Stored {system : System} (naming : system.Naming) (before : system.State)
    (path : Text) (content : ByteArray) (after : system.State) : Prop :=
  ∃ name, naming.leads? after path = some name ∧ naming.content? after name = some content ∧
    ∀ other, other ≠ name → naming.content? after other = naming.content? before other

/-- A view of a system whose writes, if they are not refused, store what is written whole, and
nowhere else. -/
structure System.View (system : System) extends System.Naming system where
  stores : ∀ {state : system.State} {path : Text} {content : ByteArray} {after : system.State},
    system.write? state path content = some after → toNaming.Stored state path content after

namespace Files

variable {files stored : Files} {parts directory place : List Text} {path : Text}
  {content : ByteArray}

/-- A directory is the working directory, or has a file in it. -/
theorem hasDirectory_iff :
    files.hasDirectory parts = true ↔
      parts = [] ∨ ∃ listed ∈ files.map File.parts, parts <+: listed ∧ parts ≠ listed := by
  simp [hasDirectory, List.isPrefixOf_iff_prefix]

/-- What a directory lies in is a directory. -/
theorem hasDirectory_of_within (outer : parts <+: directory)
    (inner : files.hasDirectory directory = true) : files.hasDirectory parts = true := by
  rw [hasDirectory_iff] at inner ⊢
  rcases inner with rfl | ⟨listed, member, inside, different⟩
  · exact .inl (List.prefix_nil.mp outer)
  · refine .inr ⟨listed, member, outer.trans inside, ?_⟩
    rintro rfl
    exact different (inside.eq_of_length_le outer.length_le)

/-- A path that leads somewhere leads into a directory. -/
theorem hasDirectory_of_follow? (inDirectory : files.hasDirectory directory = true)
    (leads : files.follow? directory parts = some place) :
    files.hasDirectory place.dropLast = true := by
  induction parts generalizing directory with
  | nil =>
      cases leads
      exact hasDirectory_of_within (List.dropLast_prefix _) inDirectory
  | cons part parts inductionHypothesis =>
      rw [follow?] at leads
      split at leads
      · exact inductionHypothesis inDirectory leads
      · split at leads
        · split at leads
          · cases leads
          · exact inductionHypothesis
              (hasDirectory_of_within (List.dropLast_prefix _) inDirectory) leads
        · split at leads
          · cases leads
          · split at leads
            · cases leads
              rwa [List.dropLast_concat]
            · split at leads
              · next entered => exact inductionHypothesis entered leads
              · cases leads

/-- A path leads to the same place among files with the same directories. -/
theorem locate?_congr {others : Files}
    (same : ∀ parts, others.hasDirectory parts = files.hasDirectory parts) (path : Text) :
    others.locate? path = files.locate? path := by
  have follow (directory parts : List Text) :
      others.follow? directory parts = files.follow? directory parts := by
    induction parts generalizing directory with
    | nil => rfl
    | cons part parts inductionHypothesis =>
        simp only [follow?, same, inductionHypothesis]
  rw [locate?, locate?, follow]

variable {file : File}

/-- The files after one is put among them lie where files did before, or where that one does. -/
theorem mem_parts_put {listed : List Text} :
    listed ∈ (files.put file).map File.parts ↔
      listed = file.parts ∨ listed ∈ files.map File.parts := by
  rw [put]
  split
  · next replaced =>
    have kept : (files.map fun other => if other.parts == file.parts then file else other).map
        File.parts = files.map File.parts := by
      rw [List.map_map]
      refine List.map_congr_left fun other _ => ?_
      simp only [Function.comp_apply]
      split
      · next same => exact (eq_of_beq same).symm
      · rfl
    obtain ⟨other, member, same⟩ := List.any_eq_true.mp replaced
    rw [kept]
    refine ⟨.inr, ?_⟩
    rintro (rfl | earlier)
    · exact eq_of_beq same ▸ List.mem_map_of_mem member
    · exact earlier
  · rw [List.map_append, List.mem_append, List.map_singleton, List.mem_singleton, Or.comm]

/-- A file put into a directory makes no other directory. -/
theorem hasDirectory_put (parent : files.hasDirectory file.parts.dropLast = true)
    (parts : List Text) : (files.put file).hasDirectory parts = files.hasDirectory parts := by
  rw [Bool.eq_iff_iff]
  constructor
  · intro entered
    rcases hasDirectory_iff.mp entered with rfl | ⟨listed, member, inside, different⟩
    · exact hasDirectory_iff.mpr (.inl rfl)
    · rcases mem_parts_put.mp member with rfl | earlier
      · refine hasDirectory_of_within ?_ parent
        have shorter : parts.length < file.parts.length :=
          Nat.lt_of_le_of_ne inside.length_le fun same => different (inside.eq_of_length same)
        refine List.prefix_of_prefix_length_le inside (List.dropLast_prefix _) ?_
        rw [List.length_dropLast]
        omega
      · exact hasDirectory_iff.mpr (.inr ⟨listed, earlier, inside, different⟩)
  · intro entered
    rcases hasDirectory_iff.mp entered with rfl | ⟨listed, member, within⟩
    · exact hasDirectory_iff.mpr (.inl rfl)
    · exact hasDirectory_iff.mpr (.inr ⟨listed, mem_parts_put.mpr (.inr member), within⟩)

/-- A file that is put among others is found where it lies, and the others where they do. -/
theorem find?_put (files : Files) (file : File) (parts : List Text) :
    (files.put file).find? (fun other => other.parts == parts) =
      if file.parts = parts then some file
      else files.find? fun other => other.parts == parts := by
  rw [put]
  split
  · next replaced =>
    have samePlace : ((fun other : File => other.parts == parts) ∘
        fun other => if other.parts == file.parts then file else other) =
          fun other => other.parts == parts := by
      funext other
      simp only [Function.comp_apply]
      split
      · next same => rw [eq_of_beq same]
      · rfl
    rw [List.find?_map, samePlace]
    cases found : files.find? fun other => other.parts == parts with
    | none =>
        rw [if_neg, Option.map_none]
        rintro rfl
        obtain ⟨other, member, same⟩ := List.any_eq_true.mp replaced
        exact List.find?_eq_none.mp found other member same
    | some other =>
        have accepted := List.find?_some found
        have there : other.parts = parts := eq_of_beq accepted
        rw [Option.map_some, there]
        by_cases here : file.parts = parts
        · rw [if_pos here, if_pos (beq_iff_eq.mpr here.symm)]
        · rw [if_neg here, if_neg fun same => here (eq_of_beq same).symm]
  · next fresh =>
    rw [List.find?_append]
    by_cases here : file.parts = parts
    · subst here
      have missing : (files.find? fun other => other.parts == file.parts) = none :=
        List.find?_eq_none.mpr fun other member same =>
          fresh (List.any_eq_true.mpr ⟨other, member, same⟩)
      simp [missing]
    · simp [here]

/-- Storing makes no directory, so every path leads where it did. -/
theorem locate?_of_store? (written : files.store? path content = some stored) (other : Text) :
    stored.locate? other = files.locate? other := by
  obtain ⟨place, leads, put⟩ := Option.bind_eq_some_iff.mp written
  split at put
  · cases put
  · cases put
    refine locate?_congr (hasDirectory_put ?_) other
    rw [locate?] at leads
    split at leads
    · cases leads
    · exact hasDirectory_of_follow? (hasDirectory_iff.mpr (.inl rfl)) leads

/-- The bytes of the file that lies where the parts lead. -/
def contentAt? (files : Files) (parts : List Text) : Option ByteArray :=
  (files.find? fun file => file.parts == parts).map File.content

/-- Storing changes the file that the path leads to and nothing else. -/
theorem exists_stored (written : files.store? path content = some stored) :
    ∃ place, stored.locate? path = some place ∧ stored.contentAt? place = some content ∧
      ∀ other, other ≠ place → stored.contentAt? other = files.contentAt? other := by
  have places := locate?_of_store? written path
  obtain ⟨place, leads, put⟩ := Option.bind_eq_some_iff.mp written
  split at put
  · cases put
  · cases put
    refine ⟨place, places.trans leads, ?_, fun other elsewhere => ?_⟩
    · rw [contentAt?, find?_put, if_pos rfl, Option.map_some]
    · rw [contentAt?, contentAt?, find?_put, if_neg fun here => elsewhere here.symm]

/-- The files of a working directory go by the parts of their paths. -/
def view (wording : Wording Files) : (system wording).View where
  Name := List Text
  leads? := locate?
  content? := contentAt?
  stores := exists_stored

end Files

end Desugar
