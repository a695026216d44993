import JamStream.Client.HostSetup
import JamStream.Cloud.RecordingConfig
import JamStream.Session.Blanks

/-! The Recording tab. Its check writes a probe to the bucket in the background, and what passes is
a storage key and a bucket; the tab's fields stay open meanwhile, like the setup pane's. -/

namespace JamStream.Client
open Cloud Runs
open Session (trim)

structure Bucket where
  name : String
  region : String
deriving DecidableEq

/-- A bucket needs both halves to be usable at all. -/
def Bucket.isSet (b : Bucket) : Bool := trim b.name ≠ "" && trim b.region ≠ ""

structure RecordingPrefs where
  buckets : ProviderKind → Option Bucket
  retention : Option Retention

namespace RecordingPrefs

def bucket (prefs : RecordingPrefs) (provider : ProviderKind) : Option Bucket :=
  (prefs.buckets provider).filter Bucket.isSet

def setBucket (prefs : RecordingPrefs) (provider : ProviderKind) (name region : String) :
    RecordingPrefs :=
  { prefs with
    buckets := Function.update prefs.buckets provider
      (if trim name = "" ∧ trim region = "" then none else some ⟨trim name, trim region⟩) }

end RecordingPrefs

structure RecordingHelp where
  env : String → Option String
  missingKey : ProviderKind → String
  storagePrice : ProviderKind → RegionId → Except String Unit

structure RecordingPanel where
  provider : ProviderKind
  bucket : String
  region : String
  keyId : String
  secret : String
  retention : Retention
  checkResult : Option (Except String Unit)
  error : Option String
  /-- What a running check was started with. -/
  checkJob : Option RecordingStorage
  prefs : RecordingPrefs
  creds : CredStore
  /-- What the store took, each beside the storage whose check had passed. -/
  saved : List (RecordingStorage × (CredField × String))
  /-- The buckets that were remembered, each beside the storage whose check had passed. -/
  remembered : List (RecordingStorage × (ProviderKind × Bucket))
  /-- The storage of the last check that ended. -/
  answered : Option RecordingStorage

inductive RecordingField
  | bucket
  | region
  | keyId
  | secret

/-- The reasons, if any, that the parts of one save are refused with. -/
structure SaveRefusals where
  id : Option String
  secret : Option String
  prefs : Option String

inductive RecordingMove
  | selectProvider (provider : ProviderKind)
  | type (field : RecordingField) (text : String)
  | beginCheck
  | poll (result : Except String Unit) (refused : SaveRefusals)
  | forget (idWorks secretWorks : Bool) (refused : Option String)
  | keepFor (retention : Retention) (refused : Option String)

def storageForLaunch (storagePrice : ProviderKind → RegionId → Except String Unit)
    (provider : ProviderKind) (bucket : String) (region : RegionId) (retention : Retention)
    (credential : StorageCredential) (stems : Bool) : Except String RecordingStorage :=
  if trim bucket = "" then
    .error "the bucket name is empty; recording needs a bucket to write to"
  else (storagePrice provider region).map fun _ =>
    { provider, bucket := trim bucket, region, retention, credential, stems }

namespace RecordingPanel

def typed (p : RecordingPanel) (text : String) : RecordingField → RecordingPanel
  | .bucket => { p with bucket := text }
  | .region => { p with region := text }
  | .keyId => { p with keyId := text }
  | .secret => { p with secret := text }

def loadFields (p : RecordingPanel) : RecordingPanel :=
  { p with
    bucket := ((p.prefs.bucket p.provider).map Bucket.name).getD ""
    region := ((p.prefs.bucket p.provider).map Bucket.region).getD "" }

def fresh (prefs : RecordingPrefs) (creds : CredStore) (retention : Retention) : RecordingPanel :=
  loadFields
    { provider := ([.digitalOcean, .aws, .gcp].find? fun kind => (prefs.bucket kind).isSome).getD
        .digitalOcean
      bucket := "", region := "", keyId := "", secret := "", retention, checkResult := none
      error := none, checkJob := none, prefs, creds, saved := [], remembered := []
      answered := none }

def selectProvider (p : RecordingPanel) (provider : ProviderKind) : RecordingPanel :=
  if p.provider = provider then p
  else loadFields { p with provider, checkResult := none, keyId := "", secret := "" }

/-- The typed pair, or the saved one where neither half is typed. -/
def credentialToCheck (help : RecordingHelp) (p : RecordingPanel) :
    Except String StorageCredential :=
  if trim p.keyId = "" ∧ trim p.secret = "" then
    match p.creds.storageCredential help.env p.provider with
    | some pair => .ok { accessKeyId := pair.1, secretAccessKey := pair.2 }
    | none => .error (help.missingKey p.provider ++
        " The Recording tab in Settings takes a key for this computer.")
  else if trim p.keyId = "" ∨ trim p.secret = "" then
    .error "paste both the access key id and the secret"
  else .ok { accessKeyId := trim p.keyId, secretAccessKey := trim p.secret }

def storageToCheck (help : RecordingHelp) (p : RecordingPanel) : Except String RecordingStorage :=
  if trim p.bucket = "" then .error "name the bucket takes should go to"
  else if trim p.region = "" then .error "name the region the bucket is in"
  else (p.credentialToCheck help).bind fun credential =>
    storageForLaunch help.storagePrice p.provider p.bucket (trim p.region) p.retention credential
      false

def beginCheck (help : RecordingHelp) (p : RecordingPanel) : RecordingPanel :=
  if p.checkJob.isSome then p
  else
    match p.storageToCheck help with
    | .ok storage => { p with checkResult := none, checkJob := some storage }
    | .error err => { p with checkResult := some (.error err) }

/-- The key as it is typed by then, and why it was not saved. -/
def saveKey (p : RecordingPanel) (refused : SaveRefusals) : CredStore × Option String :=
  if trim p.keyId = "" then (p.creds, none)
  else ((p.creds.saveStorageCredential p.provider (trim p.keyId) (trim p.secret)
      refused.id.isNone refused.secret.isNone).1, refused.id.or refused.secret)

def savePrefs (p : RecordingPanel) : RecordingPanel :=
  { p with
    prefs := { p.prefs.setBucket p.provider p.bucket p.region with retention := some p.retention } }

def applyCheckResult (p : RecordingPanel) (result : Except String Unit) (refused : SaveRefusals) :
    RecordingPanel :=
  match result with
  | .error err => { p with checkResult := some (.error err) }
  | .ok () =>
    let keyed := { p with creds := (p.saveKey refused).1 }
    match (p.saveKey refused).2 with
    | some err =>
      { keyed with
        checkResult :=
          some (.error ("the key works but saving it on this computer failed: " ++ err)) }
    | none =>
      let done := savePrefs { keyed with keyId := "", secret := "" }
      match refused.prefs with
      | none => { done with checkResult := some (.ok ()) }
      | some err =>
        { done with
          checkResult :=
            some (.error ("the bucket works but remembering it on this computer failed: " ++ err)) }

/-- What of the key the store takes: no secret behind an id that was refused. -/
def taken (p : RecordingPanel) (refused : SaveRefusals) : List (CredField × String) :=
  if trim p.keyId = "" ∨ refused.id ≠ none then []
  else ((storageKeyFields p.provider).1, trim p.keyId) ::
    if refused.secret = none then [((storageKeyFields p.provider).2, trim p.secret)] else []

/-- The bucket that is remembered, if the key was not refused. -/
def kept (p : RecordingPanel) (refused : SaveRefusals) : List (ProviderKind × Bucket) :=
  if (p.saveKey refused).2 ≠ none ∨ (trim p.bucket = "" ∧ trim p.region = "") then []
  else [(p.provider, ⟨trim p.bucket, trim p.region⟩)]

def poll (p : RecordingPanel) (result : Except String Unit) (refused : SaveRefusals) :
    RecordingPanel :=
  match p.checkJob with
  | none => p
  | some storage =>
    let done := applyCheckResult { p with checkJob := none } result refused
    { done with
      saved := (if result.isOk then (p.taken refused).map fun write => (storage, write) else []) ++
        p.saved
      remembered := (if result.isOk then (p.kept refused).map fun bucket => (storage, bucket)
        else []) ++ p.remembered
      answered := some storage }

def forget (p : RecordingPanel) (idWorks secretWorks : Bool) (refused : Option String) :
    RecordingPanel :=
  { p with
    creds := p.creds.forgetStorageCredential p.provider idWorks secretWorks
    prefs := p.prefs.setBucket p.provider "" ""
    bucket := "", region := "", checkResult := none, error := refused }

def step (help : RecordingHelp) (p : RecordingPanel) : RecordingMove → RecordingPanel
  | .selectProvider provider => p.selectProvider provider
  | .type field text => p.typed text field
  | .beginCheck => p.beginCheck help
  | .poll result refused => p.poll result refused
  | .forget idWorks secretWorks refused => p.forget idWorks secretWorks refused
  | .keepFor retention refused =>
    { p with
      retention, prefs := { p.prefs with retention := some retention }, error := refused }

end RecordingPanel

/-- The pair a storage was checked with, where the store keeps it. -/
def keyFields (storage : RecordingStorage) : List (CredField × String) :=
  [((storageKeyFields storage.provider).1, storage.credential.accessKeyId),
    ((storageKeyFields storage.provider).2, storage.credential.secretAccessKey)]

def bucketOf (storage : RecordingStorage) : ProviderKind × Bucket :=
  (storage.provider, { name := storage.bucket, region := storage.region })

namespace RecordingPanel

def SavesChecked (p : RecordingPanel) : Prop :=
  (∀ entry ∈ p.saved, entry.2 ∈ keyFields entry.1) ∧
  ∀ entry ∈ p.remembered, entry.2 = bucketOf entry.1

def ShowsOwn (p : RecordingPanel) : Prop :=
  p.checkResult = some (.ok ()) →
    ∃ storage, p.answered = some storage ∧ storage.provider = p.provider

def OnlyChecked (p : RecordingPanel) : Prop := p.SavesChecked ∧ p.ShowsOwn

/-- The typed key, as far as the store takes it, is the one that was checked. -/
def KeyAsChecked (p : RecordingPanel) (storage : RecordingStorage) (refused : SaveRefusals) : Prop :=
  trim p.keyId ≠ "" → refused.id = none →
    p.provider = storage.provider ∧ trim p.keyId = storage.credential.accessKeyId ∧
      (refused.secret = none → trim p.secret = storage.credential.secretAccessKey)

def KeyTaken (p : RecordingPanel) (refused : SaveRefusals) : Prop :=
  trim p.keyId = "" ∨ refused.id = none ∧ refused.secret = none

/-- The bucket in the fields is the one that was checked, or there is none. -/
def BucketAsChecked (p : RecordingPanel) (storage : RecordingStorage) : Prop :=
  trim p.bucket = "" ∧ trim p.region = "" ∨
    p.provider = storage.provider ∧ trim p.bucket = storage.bucket ∧
      trim p.region = storage.region

/-- When a check passes, the texts that are saved still read as they did, and the provider they
are saved for is still the one that is selected. -/
def StillAsChecked (p : RecordingPanel) : RecordingMove → Prop
  | .poll (.ok ()) refused => ∀ storage, p.checkJob = some storage →
    p.KeyAsChecked storage refused ∧
      (p.KeyTaken refused → p.BucketAsChecked storage ∧
        (refused.prefs = none → p.provider = storage.provider))
  | _ => True

variable {help : RecordingHelp} {p : RecordingPanel} {storage : RecordingStorage}
  {refused : SaveRefusals}

theorem saveKey_told : (p.saveKey refused).2 = none ↔ p.KeyTaken refused := by
  rw [saveKey, KeyTaken]
  by_cases hblank : trim p.keyId = ""
  · rw [if_pos hblank]
    exact iff_of_true rfl (.inl hblank)
  · rw [if_neg hblank, or_iff_right hblank]
    exact Option.or_eq_none_iff

theorem apply_provider (p : RecordingPanel) (refused : SaveRefusals) (result : Except String Unit) :
    (p.applyCheckResult result refused).provider = p.provider := by
  rcases result with err | ⟨⟩
  · rfl
  · rw [applyCheckResult]
    dsimp only
    split
    · rfl
    · split <;> rfl

theorem apply_shows (p : RecordingPanel) (refused : SaveRefusals) :
    (p.applyCheckResult (.ok ()) refused).checkResult = some (.ok ()) ↔
    p.KeyTaken refused ∧ refused.prefs = none := by
  rw [← saveKey_told, applyCheckResult]
  dsimp only
  split
  next err htold =>
    rw [htold]
    exact iff_of_false (fun h => nomatch h) (fun h => nomatch h.1)
  next htold =>
    split
    next hprefs => exact iff_of_true rfl ⟨htold, hprefs⟩
    next err hprefs =>
      refine iff_of_false (fun h => nomatch h) (fun h => ?_)
      cases hprefs.symm.trans h.2

theorem taken_checked : (∀ write ∈ p.taken refused, write ∈ keyFields storage) ↔
    p.KeyAsChecked storage refused := by
  have hid : ∀ value, ((storageKeyFields p.provider).1, value) ∈ keyFields storage ↔
      p.provider = storage.provider ∧ value = storage.credential.accessKeyId := by
    intro value
    rw [keyFields, List.mem_cons, List.mem_singleton]
    constructor
    · rintro (h | h)
      · have hname : p.provider.asStr = storage.provider.asStr :=
          congrArg (fun entry : CredField × String => entry.1.1) h
        exact ⟨asStr_injective hname, (Prod.mk.inj h).2⟩
      · exact absurd (Prod.mk.inj h).1 (secret_ne_id _ _).symm
    · rintro ⟨hprovider, rfl⟩
      rw [hprovider]
      exact .inl rfl
  have hsecret : ∀ value, ((storageKeyFields p.provider).2, value) ∈ keyFields storage ↔
      p.provider = storage.provider ∧ value = storage.credential.secretAccessKey := by
    intro value
    rw [keyFields, List.mem_cons, List.mem_singleton]
    constructor
    · rintro (h | h)
      · exact absurd (Prod.mk.inj h).1 (secret_ne_id _ _)
      · have hname : p.provider.asStr = storage.provider.asStr :=
          congrArg (fun entry : CredField × String => entry.1.1) h
        exact ⟨asStr_injective hname, (Prod.mk.inj h).2⟩
    · rintro ⟨hprovider, rfl⟩
      rw [hprovider]
      exact .inr rfl
  rw [taken, KeyAsChecked]
  by_cases hblank : trim p.keyId = ""
  · rw [if_pos (.inl hblank)]
    exact iff_of_true (fun _ h => nomatch h) (fun h => absurd hblank h)
  · by_cases htook : refused.id = none
    · rw [if_neg (not_or.mpr ⟨hblank, not_not.mpr htook⟩), List.forall_mem_cons, hid]
      by_cases hsecond : refused.secret = none
      · rw [if_pos hsecond, List.forall_mem_singleton, hsecret]
        constructor
        · rintro ⟨⟨hprovider, hkey⟩, -, hpair⟩ - -
          exact ⟨hprovider, hkey, fun _ => hpair⟩
        · intro h
          obtain ⟨hprovider, hkey, hpair⟩ := h hblank htook
          exact ⟨⟨hprovider, hkey⟩, hprovider, hpair hsecond⟩
      · rw [if_neg hsecond]
        constructor
        · rintro ⟨⟨hprovider, hkey⟩, -⟩ - -
          exact ⟨hprovider, hkey, fun h => absurd h hsecond⟩
        · intro h
          obtain ⟨hprovider, hkey, -⟩ := h hblank htook
          exact ⟨⟨hprovider, hkey⟩, fun _ hnone => nomatch hnone⟩
    · rw [if_pos (.inr htook)]
      exact iff_of_true (fun _ h => nomatch h) (fun _ h => absurd h htook)

theorem kept_checked : (∀ bucket ∈ p.kept refused, bucket = bucketOf storage) ↔
    (p.KeyTaken refused → p.BucketAsChecked storage) := by
  rw [kept, ← saveKey_told, BucketAsChecked, bucketOf]
  by_cases htold : (p.saveKey refused).2 = none
  · by_cases hblank : trim p.bucket = "" ∧ trim p.region = ""
    · rw [if_pos (.inr hblank)]
      exact iff_of_true (fun _ h => nomatch h) (fun _ => .inl hblank)
    · rw [if_neg (not_or.mpr ⟨not_not.mpr htold, hblank⟩), List.forall_mem_singleton, Prod.mk.injEq,
        Bucket.mk.injEq]
      exact ⟨fun h _ => .inr h, fun h => (h htold).resolve_left hblank⟩
  · rw [if_pos (.inl htold)]
    exact iff_of_true (fun _ h => nomatch h) (fun h => absurd h htold)

theorem forall_logged {α : Type} {Q : RecordingStorage → α → Prop} {new : List α}
    {log : List (RecordingStorage × α)} (hlog : ∀ entry ∈ log, Q entry.1 entry.2) :
    (∀ entry ∈ new.map (fun a => (storage, a)) ++ log, Q entry.1 entry.2) ↔
      ∀ a ∈ new, Q storage a := by
  rw [List.forall_mem_append, List.forall_mem_map]
  exact and_iff_left hlog

section poll
variable (hjob : p.checkJob = some storage)
include hjob

theorem poll_error (refused : SaveRefusals) (err : String) :
    (p.poll (.error err) refused).saved = p.saved ∧
      (p.poll (.error err) refused).remembered = p.remembered ∧
      (p.poll (.error err) refused).checkResult = some (.error err) := by
  rw [poll, hjob]
  exact ⟨rfl, rfl, rfl⟩

theorem poll_saved : (p.poll (.ok ()) refused).saved =
    (p.taken refused).map (fun write => (storage, write)) ++ p.saved := by
  rw [poll, hjob]
  rfl

theorem poll_remembered : (p.poll (.ok ()) refused).remembered =
    (p.kept refused).map (fun bucket => (storage, bucket)) ++ p.remembered := by
  rw [poll, hjob]
  rfl

theorem poll_showsOwn : (p.poll (.ok ()) refused).ShowsOwn ↔
    (p.KeyTaken refused → refused.prefs = none → p.provider = storage.provider) := by
  have hshows : (p.poll (.ok ()) refused).checkResult = some (.ok ()) ↔
      p.KeyTaken refused ∧ refused.prefs = none := by
    have happly := apply_shows { p with checkJob := none } refused
    rw [poll, hjob]
    exact happly
  have hprovider : (p.poll (.ok ()) refused).provider = p.provider := by
    have happly := apply_provider { p with checkJob := none } refused (.ok ())
    rw [poll, hjob]
    exact happly
  have hanswered : (p.poll (.ok ()) refused).answered = some storage := by
    rw [poll, hjob]
  rw [ShowsOwn, hshows, hprovider, hanswered]
  constructor
  · intro h htaken hprefs
    obtain ⟨shown, hshown, hown⟩ := h ⟨htaken, hprefs⟩
    rw [Option.some.inj hshown]
    exact hown.symm
  · exact fun h hboth => ⟨storage, rfl, (h hboth.1 hboth.2).symm⟩

theorem poll_onlyChecked (h : p.SavesChecked) : (p.poll (.ok ()) refused).OnlyChecked ↔
    p.KeyAsChecked storage refused ∧
      (p.KeyTaken refused → p.BucketAsChecked storage ∧
        (refused.prefs = none → p.provider = storage.provider)) := by
  have hkey : (∀ entry ∈ (p.taken refused).map (fun write => (storage, write)) ++ p.saved,
      entry.2 ∈ keyFields entry.1) ↔ ∀ write ∈ p.taken refused, write ∈ keyFields storage :=
    forall_logged (Q := fun s write => write ∈ keyFields s) h.1
  have hbucket : (∀ entry ∈ (p.kept refused).map (fun bucket => (storage, bucket)) ++ p.remembered,
      entry.2 = bucketOf entry.1) ↔ ∀ bucket ∈ p.kept refused, bucket = bucketOf storage :=
    forall_logged (Q := fun s bucket => bucket = bucketOf s) h.2
  rw [OnlyChecked, SavesChecked, poll_saved hjob, poll_remembered hjob, poll_showsOwn hjob]
  rw [hkey, hbucket, taken_checked, kept_checked, and_assoc, ← forall_and]

end poll

theorem select_onlyChecked (h : p.OnlyChecked) (provider : ProviderKind) :
    (p.selectProvider provider).OnlyChecked := by
  rw [selectProvider]
  split
  · exact h
  · exact ⟨h.1, fun hshown => nomatch hshown⟩

theorem beginCheck_onlyChecked (h : p.OnlyChecked) : (p.beginCheck help).OnlyChecked := by
  rw [beginCheck]
  split
  · exact h
  · cases p.storageToCheck help with
    | ok storage => exact ⟨h.1, fun hshown => nomatch hshown⟩
    | error err => exact ⟨h.1, fun hshown => nomatch hshown⟩

theorem OnlyChecked.step (h : p.OnlyChecked) {move : RecordingMove} (hmove : p.StillAsChecked move) :
    (p.step help move).OnlyChecked := by
  cases move with
  | selectProvider provider => exact select_onlyChecked h provider
  | type field text => cases field <;> exact h
  | beginCheck => exact beginCheck_onlyChecked h
  | poll result refused =>
    change (p.poll result refused).OnlyChecked
    cases hjob : p.checkJob with
    | none =>
      have hsame : p.poll result refused = p := by rw [poll, hjob]
      rw [hsame]
      exact h
    | some storage =>
      rcases result with err | ⟨⟩
      · obtain ⟨hsaved, hremembered, hshown⟩ := poll_error hjob refused err
        refine ⟨?_, fun hshows => ?_⟩
        · rw [SavesChecked, hsaved, hremembered]
          exact h.1
        · rw [hshown] at hshows
          cases hshows
      · exact (poll_onlyChecked hjob h.1).mpr (hmove storage hjob)
  | forget idWorks secretWorks refused => exact ⟨h.1, fun hshown => nomatch hshown⟩
  | keepFor retention refused => exact h

theorem OnlyChecked.stillAsChecked (h : p.OnlyChecked) {move : RecordingMove}
    (hnext : (p.step help move).OnlyChecked) : p.StillAsChecked move := by
  cases move with
  | poll result refused =>
    rcases result with err | ⟨⟩
    · trivial
    · intro storage hjob
      exact (poll_onlyChecked hjob h.1).mp hnext
  | _ => trivial

/-- The store and the buckets hold what they held at first and what passed, and nothing else. -/
def Accounted (creds : CredStore) (prefs : RecordingPrefs) (p : RecordingPanel) : Prop :=
  (∀ field value, p.creds.values field = some value →
    creds.values field = some value ∨ ∃ entry ∈ p.saved, entry.2 = (field, value)) ∧
  ∀ provider bucket, p.prefs.buckets provider = some bucket →
    prefs.buckets provider = some bucket ∨ ∃ entry ∈ p.remembered, entry.2 = (provider, bucket)

theorem saveKey_values {field : CredField} {value : String}
    (h : (p.saveKey refused).1.values field = some value) :
    p.creds.values field = some value ∨ (field, value) ∈ p.taken refused := by
  rw [saveKey] at h
  rw [taken]
  by_cases hblank : trim p.keyId = ""
  · rw [if_pos hblank] at h
    exact .inl h
  · rw [if_neg hblank, CredStore.saveStorageCredential, Session.trim_trim, Session.trim_trim] at h
    cases hid : refused.id with
    | some err =>
      rw [hid] at h
      exact .inl h
    | none =>
      rw [if_neg (not_or.mpr ⟨hblank, not_not.mpr rfl⟩)]
      rw [hid] at h
      rcases CredStore.values_of_set h with hfirst | ⟨htook, hfield, hvalue⟩
      · rcases CredStore.values_of_set hfirst with hbefore | ⟨-, hfield, hvalue⟩
        · exact .inl hbefore
        · rw [hfield, hvalue]
          exact .inr List.mem_cons_self
      · rw [if_pos (Option.isNone_iff_eq_none.mp htook), hfield, hvalue]
        exact .inr (List.mem_cons_of_mem _ List.mem_cons_self)

theorem setBucket_buckets {prefs : RecordingPrefs} {provider asked : ProviderKind}
    {name region : String} {bucket : Bucket}
    (h : (prefs.setBucket provider name region).buckets asked = some bucket) :
    prefs.buckets asked = some bucket ∨
      asked = provider ∧ ¬(trim name = "" ∧ trim region = "") ∧
        bucket = ⟨trim name, trim region⟩ := by
  by_cases hsame : asked = provider
  · subst hsame
    have hnew : (if trim name = "" ∧ trim region = "" then none
        else some ⟨trim name, trim region⟩) = some bucket :=
      (Function.update_self asked _ prefs.buckets).symm.trans h
    split at hnew
    · cases hnew
    next hsome => exact .inr ⟨rfl, hsome, (Option.some.inj hnew).symm⟩
  · exact .inl ((Function.update_of_ne hsame _ prefs.buckets).symm.trans h)

theorem apply_creds (p : RecordingPanel) (refused : SaveRefusals) :
    (p.applyCheckResult (.ok ()) refused).creds = (p.saveKey refused).1 := by
  rw [applyCheckResult]
  dsimp only
  split
  · rfl
  · split <;> rfl

theorem apply_buckets (p : RecordingPanel) (refused : SaveRefusals) {provider : ProviderKind}
    {bucket : Bucket}
    (h : (p.applyCheckResult (.ok ()) refused).prefs.buckets provider = some bucket) :
    p.prefs.buckets provider = some bucket ∨ (provider, bucket) ∈ p.kept refused := by
  rw [kept]
  cases htold : (p.saveKey refused).2 with
  | some err =>
    rw [applyCheckResult, htold] at h
    exact .inl h
  | none =>
    have hset : (p.prefs.setBucket p.provider p.bucket p.region).buckets provider = some bucket := by
      rw [applyCheckResult, htold] at h
      dsimp only at h
      split at h <;> exact h
    refine (setBucket_buckets hset).imp_right ?_
    rintro ⟨rfl, hsome, rfl⟩
    rw [if_neg (not_or.mpr ⟨not_not.mpr rfl, hsome⟩)]
    exact List.mem_cons_self

variable {creds : CredStore} {prefs : RecordingPrefs}

theorem Accounted.poll (h : p.Accounted creds prefs) (result : Except String Unit)
    (refused : SaveRefusals) : (p.poll result refused).Accounted creds prefs := by
  cases hjob : p.checkJob with
  | none =>
    rw [RecordingPanel.poll, hjob]
    exact h
  | some storage =>
    rcases result with err | ⟨⟩
    · rw [RecordingPanel.poll, hjob]
      exact h
    · have hcreds := apply_creds { p with checkJob := none } refused
      have hbuckets := @apply_buckets { p with checkJob := none } refused
      refine ⟨fun field value hheld => ?_, fun provider bucket hheld => ?_⟩
      · have hkey : (p.saveKey refused).1.values field = some value := by
          rw [RecordingPanel.poll, hjob] at hheld
          exact (congrArg (fun c => c.values field) hcreds).symm.trans hheld
        rw [poll_saved hjob]
        rcases saveKey_values hkey with hbefore | hnew
        · refine (h.1 field value hbefore).imp_right ?_
          rintro ⟨entry, hentry, heq⟩
          exact ⟨entry, List.mem_append_right _ hentry, heq⟩
        · exact .inr ⟨(storage, (field, value)),
            List.mem_append_left _ (List.mem_map.mpr ⟨_, hnew, rfl⟩), rfl⟩
      · rw [poll_remembered hjob]
        rw [RecordingPanel.poll, hjob] at hheld
        rcases hbuckets hheld with hbefore | hnew
        · refine (h.2 provider bucket hbefore).imp_right ?_
          rintro ⟨entry, hentry, heq⟩
          exact ⟨entry, List.mem_append_right _ hentry, heq⟩
        · exact .inr ⟨(storage, (provider, bucket)),
            List.mem_append_left _ (List.mem_map.mpr ⟨_, hnew, rfl⟩), rfl⟩

theorem Accounted.forget (h : p.Accounted creds prefs) (idWorks secretWorks : Bool)
    (refused : Option String) : (p.forget idWorks secretWorks refused).Accounted creds prefs := by
  refine ⟨fun field value hheld => ?_, fun provider bucket hheld => ?_⟩
  · exact h.1 field value (CredStore.values_of_delete (CredStore.values_of_delete hheld))
  · rcases setBucket_buckets hheld with hbefore | ⟨-, hsome, -⟩
    · exact h.2 provider bucket hbefore
    · exact absurd ⟨rfl, rfl⟩ hsome

theorem Accounted.step (h : p.Accounted creds prefs) (move : RecordingMove) :
    (p.step help move).Accounted creds prefs := by
  cases move with
  | selectProvider provider =>
    change (p.selectProvider provider).Accounted creds prefs
    rw [selectProvider]
    split
    · exact h
    · exact h
  | type field text => cases field <;> exact h
  | beginCheck =>
    change (p.beginCheck help).Accounted creds prefs
    rw [beginCheck]
    split
    · exact h
    · cases p.storageToCheck help <;> exact h
  | poll result refused => exact h.poll result refused
  | forget idWorks secretWorks refused => exact h.forget idWorks secretWorks refused
  | keepFor retention refused => exact h

theorem run_accounted (help : RecordingHelp) (prefs : RecordingPrefs) (creds : CredStore)
    (retention : Retention) (moves : List RecordingMove) :
    (run (RecordingPanel.step help) (fresh prefs creds retention) moves).Accounted creds prefs :=
  run_invariant (P := Accounted creds prefs) (fun _ move h => h.step move)
    ⟨fun _ _ hheld => .inl hheld, fun _ _ hheld => .inl hheld⟩ moves

theorem fresh_onlyChecked (prefs : RecordingPrefs) (creds : CredStore) (retention : Retention) :
    (fresh prefs creds retention).OnlyChecked :=
  ⟨⟨fun _ hentry => (nomatch hentry), fun _ hentry => (nomatch hentry)⟩,
    fun hshown => (nomatch hshown)⟩

theorem throughout_onlyChecked_iff (help : RecordingHelp) (prefs : RecordingPrefs)
    (creds : CredStore) (retention : Retention) (moves : List RecordingMove) :
    Throughout (RecordingPanel.step help) OnlyChecked (fresh prefs creds retention) moves ↔
      Meets (RecordingPanel.step help) StillAsChecked (fresh prefs creds retention) moves :=
  throughout_iff_meets (I := OnlyChecked) (fun _ h => h) (fun _ _ h hmove => h.step hmove)
    (fun _ _ h hnext => h.stillAsChecked hnext) (fresh_onlyChecked prefs creds retention)

end RecordingPanel

/-- In the setup pane and in the Recording tab, what is saved is what was checked, and a success is
shown beside its own provider, exactly when the checks that pass find the form as it was. -/
theorem only_checked_is_saved_iff (setupHelp : SetupHelp) (rows : List ProviderRow)
    (recordingHelp : RecordingHelp) (prefs : RecordingPrefs) (retention : Retention)
    (creds : CredStore) (setupMoves : List SetupMove) (recordingMoves : List RecordingMove) :
    (Throughout (HostWizard.step setupHelp) HostWizard.OnlyChecked
        (HostWizard.fresh rows creds) setupMoves ↔
      Meets (HostWizard.step setupHelp) HostWizard.StillAsChecked
        (HostWizard.fresh rows creds) setupMoves) ∧
    (Throughout (RecordingPanel.step recordingHelp) RecordingPanel.OnlyChecked
        (RecordingPanel.fresh prefs creds retention) recordingMoves ↔
      Meets (RecordingPanel.step recordingHelp) RecordingPanel.StillAsChecked
        (RecordingPanel.fresh prefs creds retention) recordingMoves) :=
  ⟨HostWizard.throughout_onlyChecked_iff setupHelp rows creds setupMoves,
    RecordingPanel.throughout_onlyChecked_iff recordingHelp prefs creds retention recordingMoves⟩

def cloudRows : List ProviderRow :=
  [{ kind := .localHost, status := .noAccountNeeded }, { kind := .digitalOcean, status := .ready },
    { kind := .aws, status := .setupNeeded }]

def tokenHelp : SetupHelp :=
  { gcpFromJson := fun _ => .ok ()
    builds := fun creds kind => kind = .digitalOcean && (creds.get doTokenField).isSome }

def tokenStore : CredStore :=
  { values := fun field => if field = doTokenField then some "dop_v1_old" else none }

def emptiedMeanwhile : List SetupMove :=
  [.selectProvider 1, .type .doToken "dop_v1_new", .beginCheck, .type .doToken "",
    .poll (.ok ()) fun _ => none]

/-- The check of the new token passes, and the old one gives way to an empty field. -/
theorem emptied_token_is_saved :
    (run (HostWizard.step tokenHelp) (HostWizard.fresh cloudRows tokenStore)
      emptiedMeanwhile).creds.values doTokenField = some "" ∧
    ¬Throughout (HostWizard.step tokenHelp) HostWizard.OnlyChecked
      (HostWizard.fresh cloudRows tokenStore) emptiedMeanwhile := by
  refine ⟨by decide +kernel, fun h => ?_⟩
  have hsaved : (CloudKey.digitalOcean "dop_v1_new", (doTokenField, "")) ∈
      (run (HostWizard.step tokenHelp) (HostWizard.fresh cloudRows tokenStore)
        emptiedMeanwhile).saved := by decide +kernel
  exact absurd (h.last.1 _ hsaved) (by decide +kernel)

end JamStream.Client
