import JamStream.Client.TakeRows
import JamStream.Recording.FileNames

/-! The recorder joins a take's base and a musician's name by a dash, and the app takes the two
apart at the last dash there is. -/

namespace JamStream.Client
open Recording Runs Cli Cloud

theorem last_cons_inj {α : Type*} {a : α} {p q r s : List α} (hr : a ∉ r) (hs : a ∉ s)
    (h : p ++ a :: r = q ++ a :: s) : p = q ∧ r = s := by
  have hback := congrArg List.reverse h
  rw [List.reverse_append, List.reverse_append, List.reverse_cons, List.reverse_cons,
    List.append_assoc, List.append_assoc] at hback
  have hsplit := append_cons_inj (fun hin => hr (List.mem_reverse.mp hin))
    (fun hin => hs (List.mem_reverse.mp hin)) hback
  exact ⟨List.reverse_injective hsplit.2, List.reverse_injective hsplit.1⟩

theorem exists_last {α : Type*} {a : α} {l : List α} (h : a ∈ l) :
    ∃ p q, l = p ++ a :: q ∧ a ∉ q := by
  obtain ⟨q, p, hback, hnot⟩ := List.eq_append_cons_of_mem (List.mem_reverse.mpr h)
  refine ⟨p.reverse, q.reverse, ?_, fun hin => hnot (List.mem_reverse.mp hin)⟩
  rw [← List.reverse_reverse l, hback, List.reverse_append, List.reverse_cons, List.append_assoc]
  rfl

theorem baseOf_eq {name : String} {front back : List Char}
    (hname : name.toList = front ++ '-' :: back) (hback : '-' ∉ back) :
    baseOf name = String.ofList front := by
  have hin : '-' ∈ name.toList := by
    rw [hname]
    exact List.mem_append_right _ List.mem_cons_self
  have hdrop : (name.toList.rdropWhile (· ≠ '-')) = front ++ ['-'] := by
    have hall : ∀ c ∈ back.reverse, (fun c : Char => decide (c ≠ '-')) c = true := by
      intro c hc
      refine decide_eq_true ?_
      rintro rfl
      exact hback (List.mem_reverse.mp hc)
    rw [List.rdropWhile, hname, List.reverse_append, List.reverse_cons, List.append_assoc,
      List.dropWhile_append_of_pos hall]
    simp
  rw [baseOf, if_pos hin, hdrop, List.dropLast_concat]

theorem flac_toList (part : String) :
    (part ++ ".flac").toList = part.toList ++ ['.', 'f', 'l', 'a', 'c'] := by
  rw [String.toList_append]
  rfl

theorem dash_notMem_flac {part : String} (h : '-' ∉ part.toList) :
    '-' ∉ (part ++ ".flac").toList := by
  rw [flac_toList, List.mem_append, not_or]
  exact ⟨h, by decide⟩

theorem baseOf_objectName {base part : String} (h : '-' ∉ part.toList) :
    baseOf (objectName base part) = base := by
  rw [baseOf_eq (toList_objectName base part) (dash_notMem_flac h), String.ofList_toList]

theorem baseOf_objectName_dash {base part : String} (h : '-' ∈ part.toList) :
    ∃ more, (baseOf (objectName base part)).toList = base.toList ++ '-' :: more := by
  obtain ⟨front, back, hpart, hback⟩ := exists_last h
  have hname : (objectName base part).toList =
      (base.toList ++ '-' :: front) ++ '-' :: (back ++ ['.', 'f', 'l', 'a', 'c']) := by
    rw [toList_objectName, flac_toList, hpart]
    simp
  refine ⟨front, ?_⟩
  have hnone : '-' ∉ back ++ ['.', 'f', 'l', 'a', 'c'] := by
    rw [List.mem_append, not_or]
    exact ⟨hback, by decide⟩
  rw [baseOf_eq hname hnone, String.toList_ofList]

theorem isMix_objectName {base part : String} (h : '-' ∉ part.toList) :
    isMix (objectName base part) = true ↔ part = "mix" := by
  have hsuffix : "-mix.flac".toList = '-' :: ("mix" ++ ".flac").toList := by decide
  rw [isMix, decide_eq_true_eq, hsuffix, toList_objectName]
  constructor
  · rintro ⟨front, hfront⟩
    have hsame := (last_cons_inj (dash_notMem_flac (by decide)) (dash_notMem_flac h) hfront).2
    rw [flac_toList, flac_toList] at hsame
    exact (String.toList_injective (List.append_cancel_right hsame)).symm
  · rintro rfl
    exact List.suffix_append _ _

theorem count_takeBase (unixSecs : UInt64) : (takeBase unixSecs).toList.count '-' = 4 := by
  have hpadded : ∀ width n, (padded width n).count '-' = 0 :=
    fun width n => List.count_eq_zero_of_not_mem (dash_notMem_padded width n)
  have hlead : "jamstream-".toList.count '-' = 1 := by decide
  unfold takeBase
  generalize civilFromDays _ = date
  generalize unixSecs.toNat % 86400 = secs
  rw [String.toList_ofList]
  simp only [List.count_append, List.count_cons, hpadded, hlead, beq_self_eq_true, if_true]

theorem baseOf_dash_ne_takeBase {unixSecs other : UInt64} {part : String}
    (h : '-' ∈ part.toList) : baseOf (objectName (takeBase unixSecs) part) ≠ takeBase other := by
  intro hbase
  have hlonger : ∃ more, (baseOf (objectName (takeBase unixSecs) part)).toList =
      (takeBase unixSecs).toList ++ '-' :: more := baseOf_objectName_dash h
  obtain ⟨more, hmore⟩ := hlonger
  have hcount := congrArg (List.count '-') (hmore.symm.trans (congrArg String.toList hbase))
  rw [List.count_append, List.count_cons_self, count_takeBase, count_takeBase] at hcount
  omega

theorem takeBase_minute {a b : UInt64} (h : takeBase a = takeBase b) : minute a = minute b :=
  objectName_minute (x := "mix") (y := "mix") (congrArg (objectName · "mix") h)

/-- A take some run of the recorder wrote: when it started, and the files it opened. -/
def Written (X : Encoding) (e : UInt64 × List String) : Prop :=
  ∃ fails uploads, ∃ commands : List (Command X),
    e ∈ (run Book.step ⟨Recorder.onSink fails uploads, []⟩ commands).takes

theorem Written.named {X : Encoding} {e : UInt64 × List String} (h : Written X e) :
    Book.Named e := by
  obtain ⟨fails, uploads, commands, he⟩ := h
  exact (Book.kept_run X fails uploads commands).named e he

def mixName (e : UInt64 × List String) : String := objectName (takeBase e.1) "mix"

/-- The files shown are the takes' files, each of them once. -/
structure Covers (takes : List (UInt64 × List String)) (files : List TakeFile) : Prop where
  once : (files.map TakeFile.name).Nodup
  all : ∀ name, name ∈ files.map TakeFile.name ↔ ∃ e ∈ takes, name ∈ e.2

/-- One row a take, its mix apart from its stems, and no file lost, doubled or misplaced. -/
structure RowsOfTakes (takes : List (UInt64 × List String)) (files : List TakeFile)
    (rows : List TakeRow) : Prop where
  one_row : (rows.map TakeRow.base).Perm (takes.map fun e => takeBase e.1)
  mix : ∀ row ∈ rows, ∀ e ∈ takes, row.base = takeBase e.1 →
    row.mix.files.Perm (files.filter fun file => file.name = mixName e)
  stems : ∀ row ∈ rows, ∀ e ∈ takes, row.base = takeBase e.1 →
    row.stems.files.Perm (files.filter fun file => file.name ∈ e.2 ∧ file.name ≠ mixName e)
  whole : (rows.flatMap TakeRow.files).Perm files
  bytes : (rows.map TakeRow.bytes).sum = (files.map TakeFile.bytes).sum

def PlainParts (takes : List (UInt64 × List String)) : Prop :=
  ∀ e ∈ takes, ∀ part, objectName (takeBase e.1) part ∈ e.2 → '-' ∉ part.toList

section Rows
variable {X : Encoding} {takes : List (UInt64 × List String)} {files : List TakeFile}
  (hwritten : ∀ e ∈ takes, Written X e)
  (hminutes : takes.Pairwise fun a b => minute a.1 ≠ minute b.1)
include hwritten

theorem plain_name {e : UInt64 × List String} (he : e ∈ takes) (hplain : PlainParts takes)
    {name : String} (hname : name ∈ e.2) : baseOf name = takeBase e.1 ∧
      (isMix name = true ↔ name = mixName e) := by
  obtain ⟨part, rfl⟩ := (hwritten e he).named.2 name hname
  have hpart := hplain e he part hname
  refine ⟨baseOf_objectName hpart, (isMix_objectName hpart).trans ?_⟩
  exact ⟨fun h => h ▸ rfl, fun h => objectName_injective _ h⟩

include hminutes

omit hwritten in
theorem same_take {a b : UInt64 × List String} (ha : a ∈ takes) (hb : b ∈ takes)
    (h : takeBase a.1 = takeBase b.1) : a = b := by
  by_contra hne
  have : Std.Symm fun a b : UInt64 × List String => minute a.1 ≠ minute b.1 :=
    ⟨fun _ _ hab => hab.symm⟩
  exact hminutes.forall ha hb hne (takeBase_minute h)

/-- A file that is shown under a take's base is one of that take's. -/
theorem mem_of_baseOf (hcovers : Covers takes files) (hplain : PlainParts takes)
    {e : UInt64 × List String} (he : e ∈ takes) {file : TakeFile} (hfile : file ∈ files)
    (hbase : baseOf file.name = takeBase e.1) : file.name ∈ e.2 := by
  obtain ⟨e', he', hname⟩ := (hcovers.all _).mp (List.mem_map_of_mem hfile)
  have hbase' := (plain_name hwritten he' hplain hname).1
  obtain rfl := same_take hminutes he' he (hbase'.symm.trans hbase)
  exact hname

theorem rowsOfTakes_of_plain (hcovers : Covers takes files) (hplain : PlainParts takes) :
    RowsOfTakes takes files (group files) := by
  obtain ⟨sorted, hsorted, hgrouped, hwhole⟩ := group_spec files
  have hhome : ∀ file ∈ files, ∃ e ∈ takes, file.name ∈ e.2 :=
    fun file hfile => (hcovers.all _).mp (List.mem_map_of_mem hfile)
  have hbases : (takes.map fun e => takeBase e.1).Nodup :=
    List.pairwise_map.mpr (hminutes.imp fun hne heq => hne (takeBase_minute heq))
  refine ⟨?_, ?_, ?_, hwhole, sum_bytes_group files⟩
  · refine (List.perm_ext_iff_of_nodup hgrouped.nodup hbases).mpr fun base => ?_
    rw [hgrouped.named, List.mem_map]
    constructor
    · rintro ⟨file, hfile, rfl⟩
      obtain ⟨e, he, hname⟩ := hhome file (hsorted.mem_iff.mp hfile)
      exact ⟨e, he, (plain_name hwritten he hplain hname).1.symm⟩
    · rintro ⟨e, he, rfl⟩
      have hmix := (hwritten e he).named.1
      obtain ⟨file, hfile, hname⟩ := List.mem_map.mp ((hcovers.all _).mpr ⟨e, he, hmix⟩)
      refine ⟨file, hsorted.mem_iff.mpr hfile, ?_⟩
      rw [hname]
      exact (plain_name hwritten he hplain hmix).1
  · intro row hrow e he hbase
    rw [hgrouped.mix row hrow]
    refine (hsorted.filter _).trans (.of_eq (List.filter_congr fun file hfile => ?_))
    rw [decide_eq_decide, hbase]
    constructor
    · rintro ⟨hsame, hmix⟩
      have hin := mem_of_baseOf hwritten hminutes hcovers hplain he hfile hsame
      exact (plain_name hwritten he hplain hin).2.mp hmix
    · intro hname
      have hin : file.name ∈ e.2 := hname ▸ (hwritten e he).named.1
      obtain ⟨hsame, hmix⟩ := plain_name hwritten he hplain hin
      exact ⟨hsame, hmix.mpr hname⟩
  · intro row hrow e he hbase
    rw [hgrouped.stems row hrow]
    refine (hsorted.filter _).trans (.of_eq (List.filter_congr fun file hfile => ?_))
    rw [decide_eq_decide, hbase]
    constructor
    · rintro ⟨hsame, hmix⟩
      have hin := mem_of_baseOf hwritten hminutes hcovers hplain he hfile hsame
      exact ⟨hin, fun heq => hmix ((plain_name hwritten he hplain hin).2.mpr heq)⟩
    · rintro ⟨hin, hne⟩
      obtain ⟨hsame, hmix⟩ := plain_name hwritten he hplain hin
      exact ⟨hsame, fun h => hne (hmix.mp h)⟩

omit hwritten hminutes in
theorem plain_of_rowsOfTakes (hcovers : Covers takes files)
    (hrows : RowsOfTakes takes files (group files)) : PlainParts takes := by
  intro e he part hpart hdash
  obtain ⟨sorted, hsorted, hgrouped, -⟩ := group_spec files
  obtain ⟨file, hfile, hname⟩ := List.mem_map.mp ((hcovers.all _).mpr ⟨e, he, hpart⟩)
  have hin : baseOf file.name ∈ (group files).map TakeRow.base :=
    (hgrouped.named _).mpr ⟨file, hsorted.mem_iff.mpr hfile, rfl⟩
  -- the file's row is named after no take
  obtain ⟨e', -, hbase⟩ := List.mem_map.mp (hrows.one_row.mem_iff.mp hin)
  rw [hname] at hbase
  exact baseOf_dash_ne_takeBase hdash hbase.symm

theorem rowsOfTakes_iff (hcovers : Covers takes files) :
    RowsOfTakes takes files (group files) ↔ PlainParts takes :=
  ⟨plain_of_rowsOfTakes hcovers, rowsOfTakes_of_plain hwritten hminutes hcovers⟩

end Rows

/-! The listing of a bucket and the folder beside it name every file once between them. -/

section Listing
variable {debug : String → String} {display : FilePath → String} {dir : FilePath}
  {metadata : FilePath → Option ℕ}

theorem addFolder_names (folder : List TakeFile) {files : List TakeFile}
    (hfiles : (files.map TakeFile.name).Nodup) :
    ((addFolder files folder).map TakeFile.name).Nodup ∧
      ∀ name, name ∈ (addFolder files folder).map TakeFile.name ↔
        name ∈ files.map TakeFile.name ∨ name ∈ folder.map TakeFile.name := by
  induction folder generalizing files with
  | nil => exact ⟨hfiles, fun name => by simp [addFolder]⟩
  | cons file folder ih =>
    have hany : (files.any fun listed => listed.name == file.name) = true ↔
        file.name ∈ files.map TakeFile.name := by
      simp [List.any_eq_true]
    by_cases hin : file.name ∈ files.map TakeFile.name
    · have hstep : addFolder files (file :: folder) = addFolder files folder := by
        rw [addFolder, List.foldl_cons, if_pos (hany.mpr hin)]
        rfl
      obtain ⟨hnodup, hmem⟩ := ih hfiles
      rw [hstep]
      refine ⟨hnodup, fun name => (hmem name).trans ?_⟩
      rw [List.map_cons, List.mem_cons]
      constructor
      · exact fun h => h.imp_right .inr
      · rintro (h | rfl | h)
        · exact .inl h
        · exact .inl hin
        · exact .inr h
    · have hstep : addFolder files (file :: folder) = addFolder (files ++ [file]) folder := by
        rw [addFolder, List.foldl_cons, if_neg fun h => hin (hany.mp h)]
        rfl
      have hnext : ((files ++ [file]).map TakeFile.name).Nodup := by
        rw [List.map_append]
        exact List.nodup_append.mpr ⟨hfiles, List.nodup_singleton _, fun a ha b hb heq =>
          hin (List.mem_singleton.mp hb ▸ heq ▸ ha)⟩
      obtain ⟨hnodup, hmem⟩ := ih hnext
      rw [hstep]
      refine ⟨hnodup, fun name => (hmem name).trans ?_⟩
      simp only [List.map_append, List.map_cons, List.map_nil, List.mem_append, List.mem_cons,
        List.not_mem_nil, or_false, or_assoc]

/-- A plan that is accepted has a file for each object, under the last component of its name. -/
theorem listed_of_plan {objects : List Cli.Take} {plan : List Action}
    (hplan : planDownloads debug display dir metadata objects = .ok plan) :
    ∃ listed, (objects.zip plan).mapM
        (fun entry => listedFile debug display dir entry.1 entry.2) = .ok listed ∧
      listed.map TakeFile.name = objects.map fun object => fileName object.name := by
  induction objects generalizing plan with
  | nil =>
    obtain rfl := Except.ok.inj hplan
    exact ⟨[], rfl, rfl⟩
  | cons object objects ih =>
    rw [planDownloads, List.mapM_cons] at hplan
    rcases hdest : destination debug display dir object with e | path
    · rw [planOne, hdest] at hplan
      cases hplan
    · rcases hone : planOne debug display dir metadata object with e | action
      · rw [hone] at hplan
        cases hplan
      · rw [hone] at hplan
        rcases hrest : objects.mapM (planOne debug display dir metadata) with e | actions
        · rw [hrest] at hplan
          cases hplan
        · rw [hrest] at hplan
          obtain rfl := Except.ok.inj hplan
          obtain ⟨listed, hlisted, hnames⟩ := ih hrest
          have hfirst : ∃ file, listedFile debug display dir object action = .ok file ∧
              file.name = fileName object.name := by
            rcases action with _ | _
            · exact ⟨_, rfl, rfl⟩
            · rw [listedFile, hdest]
              exact ⟨_, rfl, rfl⟩
          obtain ⟨file, hfile, hname⟩ := hfirst
          refine ⟨file :: listed, ?_, by rw [List.map_cons, List.map_cons, hname, hnames]⟩
          rw [List.zip_cons_cons, List.mapM_cons, hfile, hlisted]
          rfl

/-- The objects are files of the takes, and what is here already of them has their sizes. -/
structure FromTakes (dir : FilePath) (metadata : FilePath → Option ℕ)
    (takes : List (UInt64 × List String)) (objects : List Cli.Take) : Prop where
  named : ∀ object ∈ objects, ∃ e ∈ takes, object.name ∈ e.2
  sizes : ∀ object ∈ objects, ∀ len ∈ metadata (dir ++ [object.name]), len = object.size

theorem FromTakes.planned {X : Encoding} (hX : Alphanumerics X)
    {takes : List (UInt64 × List String)} (hwritten : ∀ e ∈ takes, Written X e)
    {objects : List Cli.Take} (h : FromTakes dir metadata takes objects) :
    ∃ plan, planDownloads debug display dir metadata objects = .ok plan := by
  refine planDownloads_accepted (fun object hobject => ?_) h.sizes
  obtain ⟨e, he, hname⟩ := h.named object hobject
  obtain ⟨fails, uploads, commands, hrun⟩ := hwritten e he
  have hsafe := (Book.file_safe hX fails uploads commands e hrun _ hname).1
  exact ⟨hsafe.nonempty, notMem_slash hX hsafe, hsafe.hazard⟩

/-- Names from a listing and a folder that cover the takes between them. -/
structure CoveredBy (takes : List (UInt64 × List String)) (objects : List Cli.Take)
    (folder : List LocalTake) : Prop where
  once : (objects.map fun object => fileName object.name).Nodup
  all : ∀ name, (name ∈ (objects.map fun object => fileName object.name) ∨
    name ∈ (filesFromLocal folder true).map TakeFile.name) ↔ ∃ e ∈ takes, name ∈ e.2

theorem takesFromObjects_ok {objects : List Cli.Take} {plan : List Action}
    (hplan : planDownloads debug display dir metadata objects = .ok plan)
    {takes : List (UInt64 × List String)} {folder : List LocalTake}
    (hcovered : CoveredBy takes objects folder) :
    ∃ files, filesFromObjects debug display dir metadata objects folder = .ok files ∧
      Covers takes files := by
  obtain ⟨listed, hlisted, hnames⟩ := listed_of_plan hplan
  have honce : (listed.map TakeFile.name).Nodup := hnames.symm ▸ hcovered.once
  obtain ⟨hnodup, hmem⟩ := addFolder_names (filesFromLocal folder true) honce
  refine ⟨addFolder listed (filesFromLocal folder true), ?_, hnodup, fun name => ?_⟩
  · rw [filesFromObjects, hplan]
    change ((objects.zip plan).mapM (fun entry => listedFile debug display dir entry.1 entry.2) >>=
      fun listed => .ok (addFolder listed (filesFromLocal folder true))) = _
    rw [hlisted]
    rfl
  · rw [hmem, hnames]
    exact hcovered.all name

end Listing

/-- Whatever takes are shown, from this disk, a folder or a bucket with its folder, their rows are
right exactly when no musician's part of a file's name has a dash. A bucket that holds nothing
but files of the takes is not refused. -/
theorem takes_grouped_iff (X : Encoding) (takes : List (UInt64 × List String))
    (hwritten : ∀ e ∈ takes, Written X e)
    (hminutes : takes.Pairwise fun a b => minute a.1 ≠ minute b.1) :
    (∀ (found : List LocalTake) (unchecked : Bool), Covers takes (filesFromLocal found unchecked) →
      (RowsOfTakes takes (filesFromLocal found unchecked)
        (group (filesFromLocal found unchecked)) ↔ PlainParts takes)) ∧
    (∀ debug display dir metadata objects folder plan,
      planDownloads debug display dir metadata objects = .ok plan →
      CoveredBy takes objects folder →
      ∃ files rows, filesFromObjects debug display dir metadata objects folder = .ok files ∧
        takesFromObjects debug display dir metadata objects folder = .ok rows ∧
        (RowsOfTakes takes files rows ↔ PlainParts takes)) ∧
    (Alphanumerics X → ∀ debug display dir metadata objects, FromTakes dir metadata takes objects →
      ∃ plan, planDownloads debug display dir metadata objects = .ok plan) := by
  refine ⟨fun found unchecked hcovers => rowsOfTakes_iff hwritten hminutes hcovers, ?_,
    fun hX debug display dir metadata objects h => h.planned hX hwritten⟩
  intro debug display dir metadata objects folder plan hplan hcovered
  obtain ⟨files, hfiles, hcovers⟩ := takesFromObjects_ok hplan hcovered
  refine ⟨files, group files, hfiles, ?_, rowsOfTakes_iff hwritten hminutes hcovers⟩
  rw [takesFromObjects, hfiles]
  rfl

def solo (name : String) : List (Command Recorder.mute) :=
  [.start 0 (some [(1, name)]),
    .tick { mix := silentTick _, stems := [{ id := 1, fader := .unity, pcm := silentTick _ }] }]

def soloTakes (name : String) : List (UInt64 × List String) :=
  (run Book.step ⟨Recorder.onSink (fun _ => none) false, []⟩ (solo name)).takes

def soloFiles (name : String) : List LocalTake :=
  (soloTakes name).flatMap fun e => e.2.map fun file => ⟨["takes", file], 4, 60⟩

theorem written_solo (name : String) : ∀ e ∈ soloTakes name, Written Recorder.mute e :=
  fun _ he => ⟨_, _, _, he⟩

/-- The mix is in the bucket, and the folder has both files. -/
def bucketMix : List Cli.Take :=
  [⟨"jamstream/recordings/s/jamstream-1970-01-01-0000-mix.flac",
    "jamstream-1970-01-01-0000-mix.flac", 4⟩]

def folderSizes (path : FilePath) : Option ℕ :=
  if path = ["takes", "jamstream-1970-01-01-0000-mix.flac"] then some 4 else none

theorem takes_grouped_iff_ana :
    (RowsOfTakes (soloTakes "ana") (filesFromLocal (soloFiles "ana") false)
      (group (filesFromLocal (soloFiles "ana") false)) ↔ PlainParts (soloTakes "ana")) ∧
    ∃ files rows,
      filesFromObjects id String.join ["takes"] folderSizes bucketMix (soloFiles "ana") =
        .ok files ∧
      takesFromObjects id String.join ["takes"] folderSizes bucketMix (soloFiles "ana") =
        .ok rows ∧
      (RowsOfTakes (soloTakes "ana") files rows ↔ PlainParts (soloTakes "ana")) := by
  have htakes : soloTakes "ana" = [(0, ["jamstream-1970-01-01-0000-mix.flac",
      "jamstream-1970-01-01-0000-ana.flac"])] := by decide +kernel
  have hnames : ∀ unchecked, (filesFromLocal (soloFiles "ana") unchecked).map TakeFile.name =
      ["jamstream-1970-01-01-0000-mix.flac", "jamstream-1970-01-01-0000-ana.flac"] := by
    decide +kernel
  have hobjects : bucketMix.map (fun object => fileName object.name) =
      ["jamstream-1970-01-01-0000-mix.flac"] := by decide +kernel
  have hminutes : (soloTakes "ana").Pairwise fun a b => minute a.1 ≠ minute b.1 := by
    rw [htakes]
    exact List.pairwise_singleton _ _
  obtain ⟨hfolder, hlisting, hplanned⟩ :=
    takes_grouped_iff Recorder.mute (soloTakes "ana") (written_solo "ana") hminutes
  constructor
  · refine hfolder _ false ⟨?_, fun name => ?_⟩
    · rw [hnames]
      decide +kernel
    · rw [hnames, htakes]
      simp
  · have hfrom : FromTakes ["takes"] folderSizes (soloTakes "ana") bucketMix := by
      rw [htakes]
      constructor
      · decide
      · decide
    obtain ⟨plan, hplan⟩ := hplanned mute_alphanumerics id String.join ["takes"] folderSizes
      bucketMix hfrom
    refine hlisting id String.join ["takes"] folderSizes bucketMix (soloFiles "ana") plan hplan
      ⟨?_, fun name => ?_⟩
    · rw [hobjects]
      exact List.nodup_singleton _
    · rw [hobjects, hnames, htakes]
      simp

/-- A space in a name becomes a dash, and the stem goes under a take there is none of. -/
theorem two_words_split :
    (filesFromLocal (soloFiles "anna lee") false).map (fun file => baseOf file.name) =
      ["jamstream-1970-01-01-0000", "jamstream-1970-01-01-0000-anna"] ∧
    ¬RowsOfTakes (soloTakes "anna lee") (filesFromLocal (soloFiles "anna lee") false)
      (group (filesFromLocal (soloFiles "anna lee") false)) := by
  have htakes : soloTakes "anna lee" = [(0, ["jamstream-1970-01-01-0000-mix.flac",
      "jamstream-1970-01-01-0000-anna-lee.flac"])] := by decide +kernel
  have hnames : (filesFromLocal (soloFiles "anna lee") false).map TakeFile.name =
      ["jamstream-1970-01-01-0000-mix.flac", "jamstream-1970-01-01-0000-anna-lee.flac"] := by
    decide +kernel
  refine ⟨by decide +kernel, fun hrows => ?_⟩
  have hcovers : Covers (soloTakes "anna lee") (filesFromLocal (soloFiles "anna lee") false) := by
    refine ⟨?_, fun name => ?_⟩
    · rw [hnames]
      decide +kernel
    · rw [hnames, htakes]
      simp
  have hplain := plain_of_rowsOfTakes hcovers hrows
  rw [htakes] at hplain
  have hname : objectName (takeBase 0) "anna-lee" = "jamstream-1970-01-01-0000-anna-lee.flac" := by
    decide +kernel
  exact hplain _ List.mem_cons_self "anna-lee" (by simp [hname]) (by decide)

end JamStream.Client
