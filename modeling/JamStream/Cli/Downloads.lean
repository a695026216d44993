import JamStream.Cli.Fetch
import JamStream.Cloud.Components
import JamStream.Cloud.Http
import JamStream.Foundations.FileTree

/-! The plan of a download: where each take goes, decided before any of them is fetched. A take's
name is judged on its own. -/

namespace JamStream.Cli
open Foundations Cloud

abbrev FilePath := List String

inductive Component
  | rootDir
  | curDir
  | parentDir
  | normal (name : List Char)
deriving DecidableEq

namespace Component

def isNormal : Component → Bool
  | normal _ => true
  | _ => false

/-- A lone dot counts only where it comes first. -/
def ofSegment (first : Bool) (segment : List Char) : Option Component :=
  if segment = [] then none
  else if segment = ['.'] then (if first then some curDir else none)
  else if segment = ['.', '.'] then some parentDir
  else some (normal segment)

def name? : Component → Option (List Char)
  | normal name => some name
  | _ => none

end Component

def splitSlash (name : List Char) : List (List Char) := name.splitOn '/'

def components (name : List Char) : List Component :=
  (if name.head? = some '/' then [.rootDir] else []) ++
    ((splitSlash name).head?.bind (Component.ofSegment true)).toList ++
      (splitSlash name).tail.filterMap (Component.ofSegment false)

inductive Action
  | fetch
  | have
deriving DecidableEq

def takeFrom (start key : String) (size : ℕ) : Take :=
  { key, size, name := (stripPrefix key start).getD key }

section plan
variable (debug : String → String) (display : FilePath → String) (dir : FilePath)

def destination (take : Take) : Except CliError FilePath :=
  let parts := components take.name.toList
  if take.name.isEmpty || !parts.all Component.isNormal then
    .error (.failed ("refusing to download " ++ debug take.key ++ ": a take has to land inside " ++
      display dir ++ ", and that key would not"))
  else
    match (splitSlash take.name.toList).findSome? fun part =>
      (windowsHazard (String.ofList part)).map fun hazard => (part, hazard) with
    | some (part, hazard) => .error (.failed ("refusing to download " ++ debug take.key ++ ": " ++
        debug (String.ofList part) ++ " " ++ hazard ++
          ", and a take's name has to work on every platform"))
    | none => .ok (dir ++ (parts.filterMap Component.name?).map String.ofList)

/-- A file that is there already at another size is not to be overwritten. -/
def planOne (metadata : FilePath → Option ℕ) (take : Take) : Except CliError Action :=
  (destination debug display dir take).bind fun path =>
    match metadata path with
    | some len =>
      if len = take.size then .ok .have
      else .error (.usage (display path ++ " already exists at " ++ toString len ++
        " bytes and the bucket lists " ++ toString take.size ++
          "; move it aside or pass --out to another directory"))
    | none => .ok .fetch

def planDownloads (metadata : FilePath → Option ℕ) (takes : List Take) :
    Except CliError (List Action) :=
  takes.mapM (planOne debug display dir metadata)

end plan

def segments (name : String) : List (List Char) := (splitSlash name.toList).filter (· ≠ [])

def NamesApart (takes : List Take) : Prop :=
  takes.Pairwise fun a b => Incomparable (segments a.name) (segments b.name)

/-- Everything lands inside the directory, at paths of its own; and whatever of it is fetched
meets no file and no directory that an earlier take has left. -/
structure NeverCollides (dir : FilePath) (paths : List FilePath) : Prop where
  inside : ∀ p ∈ paths, dir <+: p ∧ p ≠ dir
  apart : paths.Pairwise Incomparable
  lands : ∀ wanted, wanted.Sublist paths → (FileTree.landAll wanted).isSome

section destination
variable {debug : String → String} {display : FilePath → String} {dir path : FilePath} {take : Take}

theorem ofSegment_of_plain {segment : List Char} (first : Bool)
    (hplain : windowsHazard (String.ofList segment) = none) :
    Component.ofSegment first segment =
      if segment = [] then none else some (.normal segment) := by
  have hone : segment ≠ ['.'] := by
    rintro rfl
    exact absurd hplain (by decide)
  have htwo : segment ≠ ['.', '.'] := by
    rintro rfl
    exact absurd hplain (by decide)
  rw [Component.ofSegment, if_neg hone, if_neg htwo]

theorem head_tail_filterMap {α β : Type} {f g : α → Option β} {l : List α}
    (h : ∀ x ∈ l, f x = g x) : (l.head?.bind f).toList ++ l.tail.filterMap g = l.filterMap g := by
  rcases l with _ | ⟨x, l⟩
  · rfl
  · rw [List.head?_cons, Option.bind_some, List.tail_cons, List.filterMap_cons,
      h x List.mem_cons_self]
    rcases g x with _ | y
    · rfl
    · rfl

theorem components_of_plain {name : List Char} (hroot : name.head? ≠ some '/')
    (hplain : ∀ part ∈ splitSlash name, windowsHazard (String.ofList part) = none) :
    (components name).filterMap Component.name? = (splitSlash name).filter (· ≠ []) := by
  have hsame : ∀ part ∈ splitSlash name,
      Component.ofSegment true part = Component.ofSegment false part := by
    intro part hpart
    rw [ofSegment_of_plain true (hplain part hpart), ofSegment_of_plain false (hplain part hpart)]
  rw [components, if_neg hroot, List.nil_append, head_tail_filterMap hsame,
    List.filterMap_filterMap, ← List.filterMap_eq_filter]
  refine List.filterMap_congr fun part hpart => ?_
  rw [ofSegment_of_plain false (hplain part hpart)]
  by_cases hempty : part = []
  · rw [if_pos hempty, hempty]
    rfl
  · rw [if_neg hempty]
    show some part = Option.guard _ part
    exact (if_pos (decide_eq_true hempty)).symm

theorem segments_ne_nil {name : String} (hname : name.toList ≠ [])
    (hroot : name.toList.head? ≠ some '/') : segments name ≠ [] := by
  rcases hlist : name.toList with _ | ⟨c, rest⟩
  · exact absurd hlist hname
  have hc : (c == '/') = false := by
    refine beq_eq_false_iff_ne.mpr ?_
    rintro rfl
    rw [hlist] at hroot
    exact hroot rfl
  have hfirst : ∃ front more, splitSlash name.toList = (c :: front) :: more := by
    rcases hrest : rest.splitOn '/' with _ | ⟨front, more⟩
    · exact absurd hrest (List.splitOn_ne_nil '/' rest)
    · refine ⟨front, more, ?_⟩
      rw [hlist, splitSlash, List.splitOn_cons_eq_if_modifyHead, hc, hrest]
      rfl
  obtain ⟨front, more, hsplit⟩ := hfirst
  rw [segments, hsplit, List.filter_cons_of_pos (by simp)]
  exact List.cons_ne_nil _ _

theorem destination_ok (h : destination debug display dir take = .ok path) :
    segments take.name ≠ [] ∧ path = dir ++ (segments take.name).map String.ofList := by
  unfold destination at h
  by_cases hout : (take.name.isEmpty ||
      !(components take.name.toList).all Component.isNormal) = true
  · dsimp only at h
    rw [if_pos hout] at h
    cases h
  dsimp only at h
  rw [if_neg hout] at h
  rw [Bool.or_eq_true, Bool.not_eq_true', not_or, Bool.not_eq_false, List.all_eq_true] at hout
  obtain ⟨hsome, hnormal⟩ := hout
  rcases hhazard : (splitSlash take.name.toList).findSome? fun part =>
      (windowsHazard (String.ofList part)).map fun hazard => (part, hazard) with _ | ⟨part, hazard⟩
  · rw [hhazard] at h
    have hplain : ∀ part ∈ splitSlash take.name.toList,
        windowsHazard (String.ofList part) = none := fun part hpart =>
      Option.map_eq_none_iff.mp (List.findSome?_eq_none_iff.mp hhazard part hpart)
    have hroot : take.name.toList.head? ≠ some '/' := by
      intro hslash
      have hmem : Component.rootDir ∈ components take.name.toList := by
        rw [components, if_pos hslash]
        exact List.mem_cons_self
      exact absurd (hnormal _ hmem) Bool.false_ne_true
    have hname : take.name.toList ≠ [] := by
      intro hempty
      exact hsome (String.isEmpty_iff.mpr (String.toList_eq_nil_iff.mp hempty))
    refine ⟨segments_ne_nil hname hroot, ?_⟩
    rw [← Except.ok.inj h, components_of_plain hroot hplain]
    rfl
  · rw [hhazard] at h
    cases h

end destination

section plan
variable {debug : String → String} {display : FilePath → String} {dir : FilePath}
  {metadata : FilePath → Option ℕ} {takes : List Take} {plan : List Action}

def placed (dir : FilePath) (take : Take) : FilePath := dir ++ (segments take.name).map String.ofList

theorem destinations_of_plan (h : planDownloads debug display dir metadata takes = .ok plan) :
    takes.mapM (destination debug display dir) = .ok (takes.map (placed dir)) ∧
      ∀ take ∈ takes, segments take.name ≠ [] := by
  induction takes generalizing plan with
  | nil => exact ⟨rfl, nofun⟩
  | cons take takes ih =>
    rw [planDownloads, List.mapM_cons] at h
    rcases hdest : destination debug display dir take with e | path
    · rw [planOne, hdest] at h
      cases h
    · obtain ⟨hsome, rfl⟩ := destination_ok hdest
      rcases hone : planOne debug display dir metadata take with e | action
      · rw [hone] at h
        cases h
      · rw [hone] at h
        rcases hrest : takes.mapM (planOne debug display dir metadata) with e | actions
        · rw [hrest] at h
          cases h
        · obtain ⟨hall, hnames⟩ := ih hrest
          refine ⟨?_, List.forall_mem_cons.mpr ⟨hsome, hnames⟩⟩
          rw [List.mapM_cons, hdest, hall]
          rfl

theorem destination_of_plain {take : Take} (hsome : take.name ≠ "")
    (hslash : '/' ∉ take.name.toList) (hplain : windowsHazard take.name = none) :
    destination debug display dir take = .ok (dir ++ [take.name]) := by
  have hsplit : splitSlash take.name.toList = [take.name.toList] :=
    List.splitOn_eq_singleton hslash
  have hroot : take.name.toList.head? ≠ some '/' :=
    fun hhead => hslash (List.mem_of_mem_head? hhead)
  have hname : take.name.toList ≠ [] := mt String.toList_eq_nil_iff.mp hsome
  have hempty : take.name.isEmpty = false :=
    Bool.eq_false_iff.mpr (mt String.isEmpty_iff.mp hsome)
  have hpart : windowsHazard (String.ofList take.name.toList) = none := by
    rw [String.ofList_toList, hplain]
  have hparts : components take.name.toList = [.normal take.name.toList] := by
    rw [components, if_neg hroot, hsplit, List.head?_cons, Option.bind_some,
      ofSegment_of_plain true hpart, if_neg hname]
    rfl
  rw [destination, hparts, hsplit, hempty, List.findSome?_cons, hpart]
  show Except.ok (dir ++ [String.ofList take.name.toList]) = _
  rw [String.ofList_toList]

/-- Takes whose names any system can hold are planned, when no file that is there already has
another size. -/
theorem planDownloads_accepted
    (hnames : ∀ take ∈ takes,
      take.name ≠ "" ∧ '/' ∉ take.name.toList ∧ windowsHazard take.name = none)
    (hsizes : ∀ take ∈ takes, ∀ len ∈ metadata (dir ++ [take.name]), len = take.size) :
    ∃ plan, planDownloads debug display dir metadata takes = .ok plan := by
  induction takes with
  | nil => exact ⟨[], rfl⟩
  | cons take takes ih =>
    obtain ⟨⟨hsome, hslash, hplain⟩, hnames⟩ := List.forall_mem_cons.mp hnames
    obtain ⟨hsize, hsizes⟩ := List.forall_mem_cons.mp hsizes
    obtain ⟨plan, hplan⟩ := ih hnames hsizes
    have hone : ∃ action, planOne debug display dir metadata take = .ok action := by
      rw [planOne, destination_of_plain hsome hslash hplain]
      simp only [Except.bind]
      rcases hthere : metadata (dir ++ [take.name]) with _ | len
      · exact ⟨.fetch, rfl⟩
      · exact ⟨.have, if_pos (hsize len hthere)⟩
    obtain ⟨action, hone⟩ := hone
    refine ⟨action :: plan, ?_⟩
    rw [planDownloads] at hplan ⊢
    rw [List.mapM_cons, hone, hplan]
    rfl

theorem placed_inside {take : Take} (h : segments take.name ≠ []) :
    dir <+: placed dir take ∧ placed dir take ≠ dir := by
  refine ⟨List.prefix_append _ _, fun hsame => h ?_⟩
  exact List.map_eq_nil_iff.mp (List.append_right_eq_self.mp hsame)

theorem incomparable_placed_iff {a b : Take} :
    Incomparable (placed dir a) (placed dir b) ↔ Incomparable (segments a.name) (segments b.name) :=
  incomparable_append_iff.trans (incomparable_map_iff fun _ _ h => String.ofList_injective h)

/-- When the takes of a plan that is accepted keep out of each other's way. -/
theorem plan_never_collides_iff (h : planDownloads debug display dir metadata takes = .ok plan) :
    (∃ paths, takes.mapM (destination debug display dir) = .ok paths ∧
      NeverCollides dir paths) ↔ NamesApart takes := by
  obtain ⟨hpaths, hnames⟩ := destinations_of_plan h
  have hinside : ∀ p ∈ takes.map (placed dir), dir <+: p ∧ p ≠ dir := by
    intro p hp
    obtain ⟨take, htake, rfl⟩ := List.mem_map.mp hp
    exact placed_inside (hnames take htake)
  have hapart : (takes.map (placed dir)).Pairwise Incomparable ↔ NamesApart takes := by
    rw [List.pairwise_map]
    exact ⟨.imp incomparable_placed_iff.mp, .imp incomparable_placed_iff.mpr⟩
  rw [← hapart]
  constructor
  · rintro ⟨paths, hok, hgood⟩
    rw [hpaths] at hok
    exact Except.ok.inj hok ▸ hgood.apart
  · intro hpairs
    refine ⟨_, hpaths, hinside, hpairs, fun wanted hwanted => ?_⟩
    refine (FileTree.landAll_isSome fun p hp => ?_).mpr (hpairs.sublist hwanted)
    rintro rfl
    obtain ⟨hbegins, hne⟩ := hinside [] (hwanted.subset hp)
    exact hne (List.prefix_nil.mp hbegins).symm

theorem mix_and_stem_never_collide :
    (∃ paths, [⟨"p/mix.flac", "mix.flac", 4⟩, ⟨"p/stems/bass.flac", "stems/bass.flac", 9⟩].mapM
        (destination id String.join ["takes"]) = .ok paths ∧ NeverCollides ["takes"] paths) ↔
      NamesApart [⟨"p/mix.flac", "mix.flac", 4⟩, ⟨"p/stems/bass.flac", "stems/bass.flac", 9⟩] := by
  have haccepted : planDownloads id String.join ["takes"] (fun _ => none)
      [⟨"p/mix.flac", "mix.flac", 4⟩, ⟨"p/stems/bass.flac", "stems/bass.flac", 9⟩] =
        .ok [.fetch, .fetch] := by decide +kernel
  exact plan_never_collides_iff haccepted

/-- A key and the same with a slash behind it; a key and one below it. -/
theorem plans_collide :
    planDownloads id String.join ["takes"] (fun _ => none)
      [takeFrom "p/" "p/mix" 4, takeFrom "p/" "p/mix/" 9] = .ok [.fetch, .fetch] ∧
    [takeFrom "p/" "p/mix" 4, takeFrom "p/" "p/mix/" 9].mapM (destination id String.join ["takes"]) =
      .ok [["takes", "mix"], ["takes", "mix"]] ∧
    ¬NeverCollides ["takes"] [["takes", "mix"], ["takes", "mix"]] ∧
    planDownloads id String.join ["takes"] (fun _ => none)
      [takeFrom "p/" "p/mix" 4, takeFrom "p/" "p/mix/bass" 9] = .ok [.fetch, .fetch] ∧
    [takeFrom "p/" "p/mix" 4, takeFrom "p/" "p/mix/bass" 9].mapM
      (destination id String.join ["takes"]) =
        .ok [["takes", "mix"], ["takes", "mix", "bass"]] ∧
    ¬NeverCollides ["takes"] [["takes", "mix"], ["takes", "mix", "bass"]] := by
  refine ⟨by decide +kernel, by decide +kernel, fun h => ?_, by decide +kernel, by decide +kernel,
    fun h => ?_⟩
  · have hpair := List.rel_of_pairwise_cons h.apart (List.mem_singleton.mpr rfl)
    exact hpair.1 (List.prefix_refl _)
  · have hpair := List.rel_of_pairwise_cons h.apart (List.mem_singleton.mpr rfl)
    exact hpair.1 (List.prefix_append ["takes", "mix"] ["bass"])

end plan
end JamStream.Cli
