import JamStream.Cli.Downloads

/-! The takes a session left behind: the files of a bucket, of a download folder or of this disk,
sorted under the name each take's files share. -/

namespace JamStream.Client
open Cli

structure LocalTake where
  path : FilePath
  bytes : ℕ
  modifiedUnix : ℕ
deriving DecidableEq

def partSuffix : List Char := ['.', 'p', 'a', 'r', 't']

namespace LocalTake

def name (take : LocalTake) : String := take.path.getLast?.getD ""

def isPartial (take : LocalTake) : Bool := decide (partSuffix <:+ take.name.toList)

end LocalTake

structure TakeFile where
  name : String
  bytes : ℕ
  object : Option Cli.Take
  onDisk : Option FilePath
  isPartial : Bool
  unchecked : Bool
deriving DecidableEq

structure Part where
  files : List TakeFile
deriving DecidableEq

def Part.bytes (p : Part) : ℕ := (p.files.map TakeFile.bytes).sum

structure TakeRow where
  base : String
  mix : Part
  stems : Part
deriving DecidableEq

namespace TakeRow

def files (row : TakeRow) : List TakeFile := row.mix.files ++ row.stems.files

def bytes (row : TakeRow) : ℕ := row.mix.bytes + row.stems.bytes

end TakeRow

def baseOf (name : String) : String :=
  if '-' ∈ name.toList then String.ofList (name.toList.rdropWhile (· ≠ '-')).dropLast else name

def fileName (name : String) : String := String.ofList (name.toList.rtakeWhile (· ≠ '/'))

def isMix (name : String) : Bool := decide ("-mix.flac".toList <:+ name.toList)

def TakeRow.push (row : TakeRow) (file : TakeFile) : TakeRow :=
  if isMix file.name then { row with mix := { files := row.mix.files ++ [file] } }
  else { row with stems := { files := row.stems.files ++ [file] } }

/-- A file into the row of its take, which is a new one for the first. -/
def place (file : TakeFile) : List TakeRow → List TakeRow
  | [] => [{ base := baseOf file.name, mix := ⟨[]⟩, stems := ⟨[]⟩ : TakeRow }.push file]
  | row :: rows =>
    if row.base = baseOf file.name then row.push file :: rows else row :: place file rows

def group (files : List TakeFile) : List TakeRow :=
  ((files.mergeSort fun a b => decide (a.name ≤ b.name)).foldl (fun rows file => place file rows)
    []).mergeSort fun a b => decide (b.base ≤ a.base)

/-- Without the suffixes a file carries while it is written, the name being read backwards. -/
def dropParts : List Char → List Char
  | 't' :: 'r' :: 'a' :: 'p' :: '.' :: rest => dropParts rest
  | name => name

def trimPart (name : List Char) : List Char := (dropParts name.reverse).reverse

def filesFromLocal (takes : List LocalTake) (unchecked : Bool) : List TakeFile :=
  takes.map fun take =>
    { name := String.ofList (trimPart take.name.toList)
      bytes := take.bytes
      object := none
      onDisk := some take.path
      isPartial := take.isPartial
      unchecked }

section objects
variable (debug : String → String) (display : FilePath → String) (dir : FilePath)
  (metadata : FilePath → Option ℕ)

/-- An object of the listing, with where it is on this computer when it is here already. -/
def listedFile (object : Cli.Take) : Action → Except CliError TakeFile
  | .have => (destination debug display dir object).map fun path =>
    { name := fileName object.name
      bytes := object.size
      object := some object
      onDisk := some path
      isPartial := false
      unchecked := false }
  | .fetch => .ok
    { name := fileName object.name
      bytes := object.size
      object := some object
      onDisk := none
      isPartial := false
      unchecked := false }

/-- The folder adds what the listing does not mention. -/
def addFolder (files : List TakeFile) (folder : List TakeFile) : List TakeFile :=
  folder.foldl (fun files file =>
    if files.any (fun listed => listed.name == file.name) then files else files ++ [file]) files

def filesFromObjects (objects : List Cli.Take) (folder : List LocalTake) :
    Except CliError (List TakeFile) := do
  let plan ← planDownloads debug display dir metadata objects
  let listed ← (objects.zip plan).mapM fun entry => listedFile debug display dir entry.1 entry.2
  return addFolder listed (filesFromLocal folder true)

def takesFromObjects (objects : List Cli.Take) (folder : List LocalTake) :
    Except CliError (List TakeRow) :=
  (filesFromObjects debug display dir metadata objects folder).map group

end objects

/-! Every file lands in one row, whatever it is called. -/

structure Grouped (done : List TakeFile) (rows : List TakeRow) : Prop where
  nodup : (rows.map TakeRow.base).Nodup
  named : ∀ base, base ∈ rows.map TakeRow.base ↔ ∃ file ∈ done, baseOf file.name = base
  mix : ∀ row ∈ rows,
    row.mix.files = done.filter fun file => baseOf file.name = row.base ∧ isMix file.name
  stems : ∀ row ∈ rows,
    row.stems.files = done.filter fun file => baseOf file.name = row.base ∧ ¬isMix file.name

@[simp] theorem push_base (row : TakeRow) (file : TakeFile) : (row.push file).base = row.base := by
  rw [TakeRow.push]
  split <;> rfl

theorem push_mix (row : TakeRow) (file : TakeFile) : (row.push file).mix.files =
    row.mix.files ++ if isMix file.name then [file] else [] := by
  rw [TakeRow.push]
  split
  · rfl
  · exact (List.append_nil _).symm

theorem push_stems (row : TakeRow) (file : TakeFile) : (row.push file).stems.files =
    row.stems.files ++ if isMix file.name then [] else [file] := by
  rw [TakeRow.push]
  split
  · exact (List.append_nil _).symm
  · rfl

theorem place_bases (file : TakeFile) (rows : List TakeRow) :
    (place file rows).map TakeRow.base = if baseOf file.name ∈ rows.map TakeRow.base
      then rows.map TakeRow.base else rows.map TakeRow.base ++ [baseOf file.name] := by
  induction rows with
  | nil => simp [place]
  | cons row rows ih =>
    rw [place]
    split
    next hbase => simp [hbase]
    next hbase =>
      have hne : ¬baseOf file.name = row.base := fun h => hbase h.symm
      rw [List.map_cons, ih]
      by_cases hin : baseOf file.name ∈ rows.map TakeRow.base
      · simp [hin]
      · simp only [List.map_cons, List.mem_cons, hne, hin, or_self, if_false, List.cons_append]

/-- A row behind a placement is a row before it, with the file when it is its take's, or the
file's own. -/
theorem mem_place {file : TakeFile} {rows : List TakeRow} (hnodup : (rows.map TakeRow.base).Nodup)
    {row : TakeRow} (h : row ∈ place file rows) :
    (row ∈ rows ∧ row.base ≠ baseOf file.name) ∨
    (∃ before ∈ rows, before.base = baseOf file.name ∧ row = before.push file) ∨
    (baseOf file.name ∉ rows.map TakeRow.base ∧
      row = ({ base := baseOf file.name, mix := ⟨[]⟩, stems := ⟨[]⟩ } : TakeRow).push file) := by
  induction rows with
  | nil => exact .inr (.inr ⟨List.not_mem_nil, List.mem_singleton.mp h⟩)
  | cons first rows ih =>
    rw [List.map_cons, List.nodup_cons] at hnodup
    rw [place] at h
    split at h
    next hbase =>
      rcases List.mem_cons.mp h with rfl | hrest
      · exact .inr (.inl ⟨first, List.mem_cons_self, hbase, rfl⟩)
      · refine .inl ⟨List.mem_cons_of_mem _ hrest, fun heq => hnodup.1 ?_⟩
        rw [hbase, ← heq]
        exact List.mem_map_of_mem hrest
    next hbase =>
      rcases List.mem_cons.mp h with rfl | hrest
      · exact .inl ⟨List.mem_cons_self, hbase⟩
      · rcases ih hnodup.2 hrest with ⟨hold, hne⟩ | ⟨before, hbefore, heq⟩ | ⟨hnew, heq⟩
        · exact .inl ⟨List.mem_cons_of_mem _ hold, hne⟩
        · exact .inr (.inl ⟨before, List.mem_cons_of_mem _ hbefore, heq⟩)
        · refine .inr (.inr ⟨fun hin => ?_, heq⟩)
          rcases List.mem_cons.mp hin with hfirst | hin
          · exact hbase hfirst.symm
          · exact hnew hin

theorem filter_concat {p : TakeFile → Prop} [DecidablePred p] (done : List TakeFile)
    (file : TakeFile) : (done ++ [file]).filter (fun f => decide (p f)) =
      done.filter (fun f => decide (p f)) ++ if p file then [file] else [] := by
  rw [List.filter_append]
  by_cases h : p file <;> simp [h]

theorem Grouped.place {done : List TakeFile} {rows : List TakeRow} (h : Grouped done rows)
    (file : TakeFile) : Grouped (done ++ [file]) (place file rows) := by
  have hnone : baseOf file.name ∉ rows.map TakeRow.base →
      ∀ f ∈ done, baseOf f.name ≠ baseOf file.name :=
    fun hnew f hf heq => hnew ((h.named _).mpr ⟨f, hf, heq⟩)
  constructor
  · rw [place_bases]
    split
    · exact h.nodup
    next hnew =>
      exact List.nodup_append.mpr ⟨h.nodup, List.nodup_singleton _, fun a ha b hb heq =>
        hnew (List.mem_singleton.mp hb ▸ heq ▸ ha)⟩
  · intro base
    have hmem : base ∈ (Client.place file rows).map TakeRow.base ↔
        base ∈ rows.map TakeRow.base ∨ baseOf file.name = base := by
      rw [place_bases]
      split
      next hin =>
        refine ⟨.inl, fun hor => hor.elim id fun heq => heq ▸ hin⟩
      next hnew =>
        rw [List.mem_append, List.mem_singleton, eq_comm (a := base)]
    rw [hmem, h.named]
    constructor
    · rintro (⟨f, hf, heq⟩ | heq)
      · exact ⟨f, List.mem_append_left _ hf, heq⟩
      · exact ⟨file, List.mem_append_right _ (List.mem_singleton_self _), heq⟩
    · rintro ⟨f, hf, heq⟩
      rcases List.mem_append.mp hf with hf | hf
      · exact .inl ⟨f, hf, heq⟩
      · exact .inr (List.mem_singleton.mp hf ▸ heq)
  · intro row hrow
    rw [filter_concat]
    rcases mem_place h.nodup hrow with ⟨hold, hne⟩ | ⟨before, hbefore, hbase, rfl⟩ | ⟨hnew, rfl⟩
    · rw [h.mix row hold, if_neg fun hboth => hne hboth.1.symm, List.append_nil]
    · rw [push_mix, push_base, h.mix before hbefore, hbase]
      by_cases hmix : isMix file.name = true <;> simp [hmix]
    · have hempty : done.filter (fun f => decide (baseOf f.name = baseOf file.name ∧
          isMix f.name = true)) = [] :=
        List.filter_eq_nil_iff.mpr fun f hf hboth => hnone hnew f hf (of_decide_eq_true hboth).1
      rw [push_mix, push_base]
      simp only [hempty, List.nil_append]
      by_cases hmix : isMix file.name = true <;> simp [hmix]
  · intro row hrow
    rw [filter_concat]
    rcases mem_place h.nodup hrow with ⟨hold, hne⟩ | ⟨before, hbefore, hbase, rfl⟩ | ⟨hnew, rfl⟩
    · rw [h.stems row hold, if_neg fun hboth => hne hboth.1.symm, List.append_nil]
    · rw [push_stems, push_base, h.stems before hbefore, hbase]
      by_cases hmix : isMix file.name = true <;> simp [hmix]
    · have hempty : done.filter (fun f => decide (baseOf f.name = baseOf file.name ∧
          ¬isMix f.name = true)) = [] :=
        List.filter_eq_nil_iff.mpr fun f hf hboth => hnone hnew f hf (of_decide_eq_true hboth).1
      rw [push_stems, push_base]
      simp only [hempty, List.nil_append]
      by_cases hmix : isMix file.name = true <;> simp [hmix]

theorem push_files (row : TakeRow) (file : TakeFile) :
    (row.push file).files.Perm (row.files ++ [file]) := by
  rw [TakeRow.files, TakeRow.files, push_mix, push_stems]
  split
  · rw [List.append_nil, List.append_assoc, List.append_assoc]
    exact List.perm_append_comm.append_left _
  · rw [List.append_nil, List.append_assoc]

theorem place_files (file : TakeFile) (rows : List TakeRow) :
    ((place file rows).flatMap TakeRow.files).Perm (rows.flatMap TakeRow.files ++ [file]) := by
  induction rows with
  | nil =>
    rw [place, List.flatMap_singleton]
    exact push_files _ file
  | cons row rows ih =>
    rw [place]
    split
    · rw [List.flatMap_cons, List.flatMap_cons]
      refine ((push_files row file).append_right _).trans ?_
      rw [List.append_assoc, List.append_assoc]
      exact List.perm_append_comm.append_left _
    · rw [List.flatMap_cons, List.flatMap_cons, List.append_assoc]
      exact ih.append_left _

theorem foldl_grouped (files : List TakeFile) {done : List TakeFile} {rows : List TakeRow}
    (h : Grouped done rows) (hwhole : (rows.flatMap TakeRow.files).Perm done) :
    Grouped (done ++ files) (files.foldl (fun rows file => place file rows) rows) ∧
      ((files.foldl (fun rows file => place file rows) rows).flatMap TakeRow.files).Perm
        (done ++ files) := by
  induction files generalizing done rows with
  | nil =>
    rw [List.append_nil]
    exact ⟨h, hwhole⟩
  | cons file files ih =>
    have hnext := (place_files file rows).trans (hwhole.append_right [file])
    have hrest := ih (h.place file) hnext
    rw [List.append_assoc] at hrest
    exact hrest

theorem Grouped.perm {done : List TakeFile} {rows others : List TakeRow} (h : Grouped done rows)
    (hperm : others.Perm rows) : Grouped done others where
  nodup := (hperm.map _).nodup_iff.mpr h.nodup
  named := fun base => (hperm.map _).mem_iff.trans (h.named base)
  mix := fun row hrow => h.mix row (hperm.mem_iff.mp hrow)
  stems := fun row hrow => h.stems row (hperm.mem_iff.mp hrow)

theorem group_spec (files : List TakeFile) : ∃ sorted : List TakeFile, sorted.Perm files ∧
    Grouped sorted (group files) ∧ ((group files).flatMap TakeRow.files).Perm files := by
  let sorted := files.mergeSort fun a b => decide (a.name ≤ b.name)
  have hsorted : sorted.Perm files := List.mergeSort_perm _ _
  have hstart : Grouped [] [] :=
    ⟨List.nodup_nil, fun base => by simp, fun row hrow => absurd hrow List.not_mem_nil,
      fun row hrow => absurd hrow List.not_mem_nil⟩
  obtain ⟨hgrouped, hwhole⟩ := foldl_grouped sorted hstart List.Perm.nil
  rw [List.nil_append] at hgrouped hwhole
  have hrows := List.mergeSort_perm (sorted.foldl (fun rows file => place file rows) [])
    fun a b => decide (b.base ≤ a.base)
  exact ⟨sorted, hsorted, hgrouped.perm hrows, ((hrows.flatMap_right _).trans hwhole).trans hsorted⟩

theorem sum_bytes_rows (rows : List TakeRow) :
    (rows.map TakeRow.bytes).sum = ((rows.flatMap TakeRow.files).map TakeFile.bytes).sum := by
  induction rows with
  | nil => rfl
  | cons row rows ih =>
    rw [List.map_cons, List.sum_cons, List.flatMap_cons, List.map_append, List.sum_append, ih,
      TakeRow.files, List.map_append, List.sum_append]
    rfl

theorem sum_bytes_group (files : List TakeFile) :
    ((group files).map TakeRow.bytes).sum = (files.map TakeFile.bytes).sum := by
  obtain ⟨-, -, -, hwhole⟩ := group_spec files
  rw [sum_bytes_rows]
  exact (hwhole.map _).sum_eq

end JamStream.Client
