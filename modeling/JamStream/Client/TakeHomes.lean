import JamStream.Client.TakeRows
import JamStream.Cli.State

/-! Which session a take on this computer belongs to: the recorder puts every local take in one
folder, and only the clock ties a file to a session. -/

namespace JamStream.Client
open Cli
variable {R : Type}

inductive Place (R : Type)
  | bucket (record : R)
  | disk (dir : FilePath)

structure SessionTakes (R : Type) where
  sessionId : String
  startedUnix : ℕ
  secs : ℕ
  running : Bool
  place : Place R
  takes : List TakeRow
  listing : Bool

/-- The end of a session, or now while it runs or where its end is not known. -/
def untilUnix (nowUnix : ℕ) (session : SessionState) : ℕ :=
  if session.status = .running then nowUnix else session.endedUnix.getD nowUnix

def claimed (nowUnix : ℕ) (found : List LocalTake) (session : SessionState) : List LocalTake :=
  found.filter fun take => session.createdUnix ≤ take.modifiedUnix ∧
    take.modifiedUnix ≤ max (untilUnix nowUnix session) nowUnix

section Rows
variable (found : List LocalTake) (localDir : FilePath) (folder : String → List LocalTake)
  (nowUnix : ℕ)

/-- A bucket's session shows its download folder, another the takes it claims, if any. -/
def placeOf (entry : SessionState × Option R) : Option (Place R × List TakeRow) :=
  match entry.2 with
  | some record =>
    some (.bucket record, group (filesFromLocal (folder entry.1.sessionIdHex) true))
  | none =>
    if claimed nowUnix found entry.1 = [] then none
    else some (.disk localDir, group (filesFromLocal (claimed nowUnix found entry.1) false))

def rowOf (entry : SessionState × Option R) : Option (SessionTakes R) :=
  (placeOf found localDir folder nowUnix entry).map fun shown =>
    { sessionId := entry.1.sessionIdHex
      startedUnix := entry.1.createdUnix
      secs := untilUnix nowUnix entry.1 - entry.1.createdUnix
      running := entry.1.status = .running
      place := shown.1
      takes := shown.2
      listing := entry.2.isSome }

def rowsFrom (sessions : List (SessionState × Option R)) : List (SessionTakes R) :=
  (sessions.filterMap (rowOf found localDir folder nowUnix)).mergeSort
    fun a b => decide (b.startedUnix ≤ a.startedUnix)

end Rows

def Shown (rows : List (SessionTakes R)) (session : SessionState) (take : LocalTake) : Prop :=
  ∃ row ∈ rows, row.sessionId = session.sessionIdHex ∧ (∃ dir, row.place = .disk dir) ∧
    ∃ file ∈ row.takes.flatMap TakeRow.files, file.onDisk = some take.path

/-- A session that recorded to this disk was running when a take was written. -/
def Home (nowUnix : ℕ) (entry : SessionState × Option R) (take : LocalTake) : Prop :=
  entry.2 = none ∧ entry.1.createdUnix ≤ take.modifiedUnix ∧
    take.modifiedUnix ≤ untilUnix nowUnix entry.1

section Shown
variable {found : List LocalTake} {localDir : FilePath} {folder : String → List LocalTake}
  {nowUnix : ℕ} {sessions : List (SessionState × Option R)}

theorem mem_rowsFrom {row : SessionTakes R} :
    row ∈ rowsFrom found localDir folder nowUnix sessions ↔
      ∃ entry ∈ sessions, rowOf found localDir folder nowUnix entry = some row :=
  (List.mergeSort_perm _ _).mem_iff.trans List.mem_filterMap

theorem mem_claimed {session : SessionState} {take : LocalTake} :
    take ∈ claimed nowUnix found session ↔ take ∈ found ∧
      session.createdUnix ≤ take.modifiedUnix ∧
        take.modifiedUnix ≤ max (untilUnix nowUnix session) nowUnix := by
  rw [claimed, List.mem_filter, decide_eq_true_eq]

/-- The row of a session without a bucket is there once it claims a take, and shows what it
claims. -/
theorem rowOf_none {session : SessionState} {row : SessionTakes R} :
    rowOf found localDir folder nowUnix (session, none) = some row ↔
      claimed nowUnix found session ≠ [] ∧ row =
        { sessionId := session.sessionIdHex
          startedUnix := session.createdUnix
          secs := untilUnix nowUnix session - session.createdUnix
          running := session.status = .running
          place := .disk localDir
          takes := group (filesFromLocal (claimed nowUnix found session) false)
          listing := false } := by
  rw [rowOf, placeOf]
  by_cases hnone : claimed nowUnix found session = []
  · simp [hnone]
  · simp [hnone, eq_comm]

theorem rowOf_some_place {session : SessionState} {record : R} {row : SessionTakes R}
    (h : rowOf found localDir folder nowUnix (session, some record) = some row) :
    row.place = .bucket record := by
  obtain rfl := Option.some.inj h
  rfl

theorem mem_files_group {takes : List LocalTake} {path : FilePath} :
    (∃ file ∈ (group (filesFromLocal takes false)).flatMap TakeRow.files,
      file.onDisk = some path) ↔ ∃ take ∈ takes, take.path = path := by
  obtain ⟨-, -, -, hwhole⟩ := group_spec (filesFromLocal takes false)
  constructor
  · rintro ⟨file, hfile, hpath⟩
    obtain ⟨take, htake, rfl⟩ := List.mem_map.mp (hwhole.mem_iff.mp hfile)
    exact ⟨take, htake, Option.some.inj hpath⟩
  · rintro ⟨take, htake, rfl⟩
    exact ⟨_, hwhole.mem_iff.mpr (List.mem_map_of_mem htake), rfl⟩

theorem shown_iff (hids : (sessions.map fun entry => entry.1.sessionIdHex).Nodup)
    (hpaths : (found.map LocalTake.path).Nodup) {entry : SessionState × Option R}
    (hentry : entry ∈ sessions) {take : LocalTake} (htake : take ∈ found) :
    Shown (rowsFrom found localDir folder nowUnix sessions) entry.1 take ↔
      entry.2 = none ∧ entry.1.createdUnix ≤ take.modifiedUnix ∧
        take.modifiedUnix ≤ max (untilUnix nowUnix entry.1) nowUnix := by
  constructor
  · rintro ⟨row, hrow, hid, ⟨dir, hdir⟩, hfile⟩
    obtain ⟨other, hother, hof⟩ := mem_rowsFrom.mp hrow
    have hsame : other.1.sessionIdHex = entry.1.sessionIdHex := by
      rw [← hid]
      rw [rowOf] at hof
      obtain ⟨shown, -, rfl⟩ := Option.map_eq_some_iff.mp hof
      rfl
    obtain rfl := List.inj_on_of_nodup_map hids hother hentry hsame
    obtain ⟨session, record⟩ := other
    cases record with
    | some record => rw [rowOf_some_place hof] at hdir; cases hdir
    | none =>
      obtain ⟨-, rfl⟩ := rowOf_none.mp hof
      obtain ⟨claimedTake, hclaimed, hpath⟩ := mem_files_group.mp hfile
      have hin := (mem_claimed.mp hclaimed).1
      obtain rfl := List.inj_on_of_nodup_map hpaths hin htake hpath
      exact ⟨rfl, (mem_claimed.mp hclaimed).2⟩
  · rintro ⟨hnone, hbetween⟩
    obtain ⟨session, record⟩ := entry
    obtain rfl : record = none := hnone
    have hclaimed : take ∈ claimed nowUnix found session := mem_claimed.mpr ⟨htake, hbetween⟩
    have hsome : claimed nowUnix found session ≠ [] := List.ne_nil_of_mem hclaimed
    exact ⟨_, mem_rowsFrom.mpr ⟨_, hentry, rowOf_none.mpr ⟨hsome, rfl⟩⟩, rfl, ⟨localDir, rfl⟩,
      mem_files_group.mpr ⟨take, hclaimed, rfl⟩⟩

end Shown

/-- What attribution by the clock comes to: a take is shown under the session it was written in,
under none that had ended before it began or started after it was written, and never under two
sessions of which one had ended before the other started. -/
structure Attributed (rows : List (SessionTakes R)) (sessions : List (SessionState × Option R))
    (found : List LocalTake) (began : LocalTake → ℕ) (nowUnix : ℕ) : Prop where
  home : ∀ entry ∈ sessions, ∀ take ∈ found, Home nowUnix entry take → Shown rows entry.1 take
  ended : ∀ entry ∈ sessions, ∀ take ∈ found, (∃ home ∈ sessions, Home nowUnix home take) →
    Shown rows entry.1 take → entry.1.status = .ended →
      began take ≤ untilUnix nowUnix entry.1
  started : ∀ entry ∈ sessions, ∀ take ∈ found, (∃ home ∈ sessions, Home nowUnix home take) →
    Shown rows entry.1 take → entry.1.createdUnix ≤ take.modifiedUnix
  apart : ∀ entry ∈ sessions, ∀ other ∈ sessions, ∀ take ∈ found,
    Shown rows entry.1 take → Shown rows other.1 take →
      other.1.createdUnix ≤ untilUnix nowUnix entry.1

/-- No take written behind an ended session's start began behind its end, or was written in a
session that started there. -/
def NoLaterTakes (sessions : List (SessionState × Option R)) (found : List LocalTake)
    (began : LocalTake → ℕ) (nowUnix : ℕ) : Prop :=
  ∀ entry ∈ sessions, entry.2 = none → entry.1.status = .ended →
    ∀ take ∈ found, entry.1.createdUnix ≤ take.modifiedUnix →
      take.modifiedUnix ≤ max (untilUnix nowUnix entry.1) nowUnix →
        ((∃ home ∈ sessions, Home nowUnix home take) → began take ≤ untilUnix nowUnix entry.1) ∧
        ∀ other ∈ sessions, other.2 = none → untilUnix nowUnix entry.1 < other.1.createdUnix →
          take.modifiedUnix < other.1.createdUnix

theorem untilUnix_running {session : SessionState} (h : session.status ≠ .ended) (nowUnix : ℕ) :
    untilUnix nowUnix session = nowUnix := by
  cases hstatus : session.status with
  | running => exact if_pos hstatus
  | ended => exact absurd hstatus h

/-- Local takes go to the sessions they were recorded in exactly when none of them was recorded
after a session of this disk had ended. -/
theorem attributed_iff (sessions : List (SessionState × Option R)) (found : List LocalTake)
    (localDir : FilePath) (folder : String → List LocalTake) (began : LocalTake → ℕ) (nowUnix : ℕ)
    (hids : (sessions.map fun entry => entry.1.sessionIdHex).Nodup)
    (hpaths : (found.map LocalTake.path).Nodup) :
    Attributed (rowsFrom found localDir folder nowUnix sessions) sessions found began nowUnix ↔
      NoLaterTakes sessions found began nowUnix := by
  have hshown : ∀ entry ∈ sessions, ∀ take ∈ found,
      (Shown (rowsFrom found localDir folder nowUnix sessions) entry.1 take ↔
        entry.2 = none ∧ entry.1.createdUnix ≤ take.modifiedUnix ∧
          take.modifiedUnix ≤ max (untilUnix nowUnix entry.1) nowUnix) :=
    fun entry hentry take htake => shown_iff hids hpaths hentry htake
  constructor
  · intro h entry hentry hnone hended take htake hafter hwide
    have hin := (hshown entry hentry take htake).mpr ⟨hnone, hafter, hwide⟩
    refine ⟨fun hhome => h.ended entry hentry take htake hhome hin hended, ?_⟩
    intro other hother hdisk hlater
    by_contra hnot
    have hwritten : other.1.createdUnix ≤ take.modifiedUnix := Nat.le_of_not_lt hnot
    -- written behind the end, so it is the bound by now that let it in
    have hnow : take.modifiedUnix ≤ nowUnix := by
      rcases le_max_iff.mp hwide with hbefore | hnow
      · exact absurd (hlater.trans_le (hwritten.trans hbefore)) (Nat.lt_irrefl _)
      · exact hnow
    have hboth := (hshown other hother take htake).mpr
      ⟨hdisk, hwritten, hnow.trans (Nat.le_max_right _ _)⟩
    exact absurd (h.apart entry hentry other hother take htake hin hboth) (Nat.not_le_of_lt hlater)
  · intro h
    refine ⟨?_, ?_, ?_, ?_⟩
    · intro entry hentry take htake hhome
      exact (hshown entry hentry take htake).mpr
        ⟨hhome.1, hhome.2.1, hhome.2.2.trans (Nat.le_max_left _ _)⟩
    · intro entry hentry take htake hhome hin hended
      obtain ⟨hnone, hafter, hwide⟩ := (hshown entry hentry take htake).mp hin
      exact (h entry hentry hnone hended take htake hafter hwide).1 hhome
    · intro entry hentry take htake _ hin
      exact ((hshown entry hentry take htake).mp hin).2.1
    · intro entry hentry other hother take htake hin hboth
      obtain ⟨hnone, hafter, hwide⟩ := (hshown entry hentry take htake).mp hin
      obtain ⟨hdisk, hwritten, -⟩ := (hshown other hother take htake).mp hboth
      by_contra hnot
      have hlater : untilUnix nowUnix entry.1 < other.1.createdUnix := Nat.lt_of_not_le hnot
      by_cases hended : entry.1.status = .ended
      · -- of an ended session the condition rules a later one out, of a running one the clock
        have hearlier := (h entry hentry hnone hended take htake hafter hwide).2 other hother hdisk
          hlater
        exact absurd hwritten (Nat.not_le_of_lt hearlier)
      · rw [untilUnix_running hended, max_self] at hwide
        rw [untilUnix_running hended] at hlater
        exact absurd (hlater.trans_le (hwritten.trans hwide)) (Nat.lt_irrefl _)

def localSession (id : String) (createdUnix : ℕ) (status : SessionStatus) (endedUnix : Option ℕ) :
    SessionState × Option Unit :=
  ({ sessionIdHex := id, provider := "local", region := "local", instanceId := id, createdUnix,
     issuerPrivateKeyB64 := "", status, endedUnix }, none)

def twoEvenings : List (SessionState × Option Unit) :=
  [localSession "aa" 0 .ended (some 100), localSession "bb" 200 .running none]

def laterTake : LocalTake := ⟨["takes", "jamstream-1970-01-01-0003-mix.flac"], 4, 250⟩

def earlierTake : LocalTake := ⟨["takes", "jamstream-1970-01-01-0000-mix.flac"], 4, 90⟩

theorem attributed_iff_earlier :
    Attributed (rowsFrom [earlierTake] ["takes"] (fun _ => []) 300
        [localSession "aa" 0 .ended (some 100)]) [localSession "aa" 0 .ended (some 100)]
        [earlierTake] (fun _ => 10) 300 ↔
      NoLaterTakes [localSession "aa" 0 .ended (some 100)] [earlierTake] (fun _ => 10) 300 :=
  attributed_iff _ _ _ _ _ _ (List.nodup_singleton _) (List.nodup_singleton _)

/-- The take of the second session is shown under the first as well. -/
theorem later_take_under_both :
    Shown (rowsFrom [laterTake] ["takes"] (fun _ => []) 300 twoEvenings)
        (localSession "aa" 0 .ended (some 100)).1 laterTake ∧
      ¬Attributed (rowsFrom [laterTake] ["takes"] (fun _ => []) 300 twoEvenings) twoEvenings
        [laterTake] (fun _ => 210) 300 := by
  have hids : (twoEvenings.map fun entry => entry.1.sessionIdHex).Nodup := by decide
  have hpaths : ([laterTake].map LocalTake.path).Nodup := by decide
  have hfirst : localSession "aa" 0 .ended (some 100) ∈ twoEvenings := List.mem_cons_self
  have hsecond : localSession "bb" 200 .running none ∈ twoEvenings :=
    List.mem_cons_of_mem _ List.mem_cons_self
  have htake : laterTake ∈ [laterTake] := List.mem_cons_self
  have hfirstShown : Shown (rowsFrom [laterTake] ["takes"] (fun _ => []) 300 twoEvenings)
      (localSession "aa" 0 .ended (some 100)).1 laterTake :=
    (shown_iff hids hpaths hfirst htake).mpr ⟨rfl, by decide, by decide⟩
  refine ⟨hfirstShown, fun h => ?_⟩
  have hhome : Home 300 (localSession "bb" 200 .running none) laterTake :=
    ⟨rfl, by decide, by decide⟩
  have hbegan := h.ended _ hfirst _ htake ⟨_, hsecond, hhome⟩ hfirstShown rfl
  exact absurd hbegan (by decide)

end JamStream.Client
