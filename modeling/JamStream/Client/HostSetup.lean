import JamStream.Client.Creds

/-! The host wizard's setup pane. A check of the pasted key runs in the background, and the pane
stays as it is meanwhile: its fields take text and its rows take clicks. -/

namespace JamStream.Client
open Cloud Runs
open Session (trim)

inductive ProviderStatus
  | noAccountNeeded
  | ready
  | setupNeeded
deriving DecidableEq

structure ProviderRow where
  kind : ProviderKind
  status : ProviderStatus
deriving DecidableEq

structure SetupFields where
  doToken : String
  awsAccessKeyId : String
  awsSecretAccessKey : String
  gcpJson : String
deriving DecidableEq

inductive SetupField
  | doToken
  | awsAccessKeyId
  | awsSecretAccessKey
  | gcpJson

def doTokenField : CredField := ("digitalocean", "token")
def awsAccessKeyIdField : CredField := ("aws", "access_key_id")
def awsSecretAccessKeyField : CredField := ("aws", "secret_access_key")
def gcpServiceAccountJsonField : CredField := ("gcp", "service_account_json")

namespace SetupFields

def type (f : SetupFields) (text : String) : SetupField → SetupFields
  | .doToken => { f with doToken := text }
  | .awsAccessKeyId => { f with awsAccessKeyId := text }
  | .awsSecretAccessKey => { f with awsSecretAccessKey := text }
  | .gcpJson => { f with gcpJson := text }

/-- Where each text of a provider goes. This computer holds none. -/
def saves (f : SetupFields) : ProviderKind → List (CredField × String)
  | .digitalOcean => [(doTokenField, f.doToken)]
  | .aws => [(awsAccessKeyIdField, f.awsAccessKeyId),
      (awsSecretAccessKeyField, f.awsSecretAccessKey)]
  | .gcp => [(gcpServiceAccountJsonField, f.gcpJson)]
  | .localHost => []

end SetupFields

/-- A key that is being tried out, and is nowhere but in the check. -/
inductive CloudKey
  | digitalOcean (token : String)
  | aws (accessKeyId secretAccessKey : String)
  | gcp (json : String)
deriving DecidableEq

namespace CloudKey

def provider : CloudKey → ProviderKind
  | .digitalOcean _ => .digitalOcean
  | .aws _ _ => .aws
  | .gcp _ => .gcp

def fields : CloudKey → List (CredField × String)
  | .digitalOcean token => [(doTokenField, token)]
  | .aws accessKeyId secretAccessKey =>
    [(awsAccessKeyIdField, accessKeyId), (awsSecretAccessKeyField, secretAccessKey)]
  | .gcp json => [(gcpServiceAccountJsonField, json)]

theorem provider_of_field {key : CloudKey} {entry : CredField × String} (h : entry ∈ key.fields) :
    entry.1.1 = key.provider.asStr := by
  cases key with
  | digitalOcean token =>
    have heq : entry = (doTokenField, token) := List.mem_singleton.mp h
    rw [heq]
    rfl
  | aws id secret =>
    rcases List.mem_cons.mp h with rfl | hrest
    · rfl
    · have heq : entry = (awsSecretAccessKeyField, secret) := List.mem_singleton.mp hrest
      rw [heq]
      rfl
  | gcp json =>
    have heq : entry = (gcpServiceAccountJsonField, json) := List.mem_singleton.mp h
    rw [heq]
    rfl

end CloudKey

theorem SetupFields.provider_of_save {f : SetupFields} {kind : ProviderKind}
    {save : CredField × String} (h : save ∈ f.saves kind) : save.1.1 = kind.asStr := by
  cases kind with
  | digitalOcean =>
    have heq : save = (doTokenField, f.doToken) := List.mem_singleton.mp h
    rw [heq]
    rfl
  | aws =>
    rcases List.mem_cons.mp h with rfl | hrest
    · rfl
    · have heq : save = (awsSecretAccessKeyField, f.awsSecretAccessKey) :=
        List.mem_singleton.mp hrest
      rw [heq]
      rfl
  | gcp =>
    have heq : save = (gcpServiceAccountJsonField, f.gcpJson) := List.mem_singleton.mp h
    rw [heq]
    rfl
  | localHost => cases h

structure SetupHelp where
  gcpFromJson : String → Except String Unit
  builds : CredStore → ProviderKind → Bool

structure HostWizard where
  providers : List ProviderRow
  selectedProvider : Option ℕ
  setup : SetupFields
  setupOpen : Bool
  checkResult : Option (Except String Unit)
  /-- The key a running check was started with. -/
  checkJob : Option CloudKey
  creds : CredStore
  /-- What the store took, each beside the key whose check had passed. -/
  saved : List (CloudKey × (CredField × String))
  /-- The key of the last check that ended. -/
  answered : Option CloudKey

inductive SetupMove
  | selectProvider (idx : ℕ)
  | type (field : SetupField) (text : String)
  | loadFile (read : Except String String)
  | beginCheck
  /-- The job ends, and each field the result saves may be refused with a reason. -/
  | poll (result : Except String Unit) (refused : CredField → Option String)

namespace HostWizard

def fresh (providers : List ProviderRow) (creds : CredStore) : HostWizard :=
  { providers, selectedProvider := none
    setup := { doToken := "", awsAccessKeyId := "", awsSecretAccessKey := "", gcpJson := "" }
    setupOpen := false, checkResult := none, checkJob := none, creds, saved := []
    answered := none }

def selectedRow (w : HostWizard) : Option ProviderRow :=
  w.selectedProvider.bind fun idx => w.providers[idx]?

def selectedProviderKind (w : HostWizard) : Option ProviderKind :=
  w.selectedRow.map ProviderRow.kind

def selectProvider (w : HostWizard) (idx : ℕ) : HostWizard :=
  match w.providers[idx]? with
  | none => w
  | some row =>
    { w with
      setupOpen := row.status = .setupNeeded
      checkResult := if w.selectedProvider = some idx then w.checkResult else none
      selectedProvider := some idx }

def refreshRow (builds : ProviderKind → Bool) (row : ProviderRow) : ProviderRow :=
  if row.kind = .localHost then row
  else { row with status := if builds row.kind then .ready else .setupNeeded }

def refreshProviderStatus (help : SetupHelp) (w : HostWizard) (idx : ℕ) : HostWizard :=
  { w with providers := w.providers.modify idx (refreshRow (help.builds w.creds)) }

/-- The key as it is typed, short of what no check could pass. -/
def providerFromSetup (help : SetupHelp) (w : HostWizard) : Except String CloudKey :=
  match w.selectedProviderKind with
  | none => .error "pick a provider first"
  | some .digitalOcean =>
    if trim w.setup.doToken = "" then .error "paste the token first"
    else .ok (.digitalOcean (trim w.setup.doToken))
  | some .aws =>
    if trim w.setup.awsAccessKeyId = "" ∨ trim w.setup.awsSecretAccessKey = "" then
      .error "paste both values first"
    else .ok (.aws (trim w.setup.awsAccessKeyId) (trim w.setup.awsSecretAccessKey))
  | some .gcp =>
    if trim w.setup.gcpJson = "" then .error "paste the service account JSON first"
    else (help.gcpFromJson (trim w.setup.gcpJson)).map fun _ => .gcp (trim w.setup.gcpJson)
  | some .localHost => .error "this computer needs no credentials"

def beginCheck (help : SetupHelp) (w : HostWizard) : HostWizard :=
  if w.checkJob.isSome then w
  else
    match w.providerFromSetup help with
    | .ok key => { w with checkResult := none, checkJob := some key }
    | .error err => { w with checkResult := some (.error err) }

/-- What a passing check saves: the texts of the row that is selected by then. -/
def saves (w : HostWizard) : List (CredField × String) :=
  (w.selectedProviderKind.map w.setup.saves).getD []

/-- The saves in turn, and the reason of the last that was refused. -/
def saveAll (refused : CredField → Option String) (saves : List (CredField × String))
    (creds : CredStore) : CredStore × Option String :=
  (saves.foldl (fun c save => c.set save.1 (trim save.2) (refused save.1).isNone) creds,
    saves.reverse.findSome? fun save => refused save.1)

def applyCheckResult (help : SetupHelp) (w : HostWizard) (result : Except String Unit)
    (refused : CredField → Option String) : HostWizard :=
  match result with
  | .error err => { w with checkResult := some (.error err) }
  | .ok () =>
    match w.selectedProvider with
    | none => { w with checkResult := some (.ok ()) }
    | some idx =>
      let stored := saveAll refused w.saves w.creds
      let kept := refreshProviderStatus help { w with creds := stored.1 } idx
      match stored.2 with
      | some err =>
        { kept with
          checkResult := some (.error ("the credentials work but saving them failed: " ++ err)) }
      | none => { kept with checkResult := some (.ok ()) }

def taken (w : HostWizard) (refused : CredField → Option String) : List (CredField × String) :=
  (w.saves.filter fun save => (refused save.1).isNone).map fun save => (save.1, trim save.2)

def poll (help : SetupHelp) (w : HostWizard) (result : Except String Unit)
    (refused : CredField → Option String) : HostWizard :=
  match w.checkJob with
  | none => w
  | some key =>
    let done := applyCheckResult help { w with checkJob := none } result refused
    { done with
      saved := (if result.isOk then (w.taken refused).map fun write => (key, write) else []) ++
        w.saved
      answered := some key }

def step (help : SetupHelp) (w : HostWizard) : SetupMove → HostWizard
  | .selectProvider idx => w.selectProvider idx
  | .type field text => { w with setup := w.setup.type text field }
  | .loadFile (.ok json) => { w with setup := w.setup.type json .gcpJson, checkResult := none }
  | .loadFile (.error err) =>
    { w with checkResult := some (.error ("cannot read the key file: " ++ err)) }
  | .beginCheck => w.beginCheck help
  | .poll result refused => w.poll help result refused

def SavesChecked (w : HostWizard) : Prop := ∀ entry ∈ w.saved, entry.2 ∈ entry.1.fields

def ShowsOwn (w : HostWizard) : Prop :=
  w.checkResult = some (.ok ()) →
    ∃ key, w.answered = some key ∧ w.selectedProviderKind = some key.provider

def OnlyChecked (w : HostWizard) : Prop := w.SavesChecked ∧ w.ShowsOwn

/-- When a check passes, its provider is still selected and each of its texts that the store
takes still reads as it did; or else another is, and the store refuses each of that one's. -/
def StillAsChecked (w : HostWizard) : SetupMove → Prop
  | .poll (.ok ()) refused => ∀ key, w.checkJob = some key →
    (w.selectedProviderKind = some key.provider ∧
      ∀ save ∈ w.setup.saves key.provider, refused save.1 = none →
        (save.1, trim save.2) ∈ key.fields) ∨
    (w.selectedProviderKind ≠ some key.provider ∧ w.saves ≠ [] ∧
      ∀ save ∈ w.saves, refused save.1 ≠ none)
  | _ => True

variable {help : SetupHelp} {w : HostWizard} {key : CloudKey}
  {refused : CredField → Option String}

theorem saveAll_told (saves : List (CredField × String)) (creds : CredStore) :
    (saveAll refused saves creds).2 = none ↔ ∀ save ∈ saves, refused save.1 = none := by
  have hfind : (saveAll refused saves creds).2 =
      saves.reverse.findSome? fun save => refused save.1 := rfl
  rw [hfind, List.findSome?_eq_none_iff]
  constructor
  · intro h save hsave
    exact h save (List.mem_reverse.mpr hsave)
  · intro h save hsave
    exact h save (List.mem_reverse.mp hsave)

theorem refresh_kind (idx : ℕ) :
    (refreshProviderStatus help w idx).selectedProviderKind = w.selectedProviderKind := by
  have hrow : ∀ builds (row : ProviderRow), (refreshRow builds row).kind = row.kind := by
    intro builds row
    rw [refreshRow]
    split <;> rfl
  rw [selectedProviderKind, selectedProviderKind, selectedRow, selectedRow]
  change Option.map _ (w.selectedProvider.bind _) = _
  cases w.selectedProvider with
  | none => rfl
  | some i =>
    change Option.map ProviderRow.kind (w.providers.modify idx _)[i]? =
      Option.map ProviderRow.kind w.providers[i]?
    rw [List.getElem?_modify]
    cases w.providers[i]? with
    | none => rfl
    | some row =>
      change some _ = some row.kind
      split
      · rw [hrow]
      · rfl

theorem apply_kind (result : Except String Unit) :
    (applyCheckResult help w result refused).selectedProviderKind = w.selectedProviderKind := by
  rcases result with err | ⟨⟩
  · rfl
  · rw [applyCheckResult]
    split
    · rfl
    next idx hsel =>
      have hkind : (refreshProviderStatus help
          { w with creds := (saveAll refused w.saves w.creds).1 } idx).selectedProviderKind =
            w.selectedProviderKind := refresh_kind idx
      dsimp only
      split
      · exact hkind
      · exact hkind

theorem apply_shows :
    (applyCheckResult help w (.ok ()) refused).checkResult = some (.ok ()) ↔
      ∀ save ∈ w.saves, refused save.1 = none := by
  rw [applyCheckResult]
  cases hsel : w.selectedProvider with
  | none =>
    have hnone : w.saves = [] := by
      rw [saves, selectedProviderKind, selectedRow, hsel]
      rfl
    rw [hnone]
    exact iff_of_true rfl fun _ h => nomatch h
  | some idx =>
    rw [← saveAll_told w.saves w.creds]
    dsimp only
    split
    next err htold =>
      rw [htold]
      exact iff_of_false (fun h => nomatch h) (fun h => nomatch h)
    next htold => exact iff_of_true rfl htold

theorem mem_taken {write : CredField × String} : write ∈ w.taken refused ↔
    ∃ save ∈ w.saves, refused save.1 = none ∧ (save.1, trim save.2) = write := by
  rw [taken, List.mem_map]
  constructor
  · rintro ⟨save, hsave, heq⟩
    obtain ⟨hmem, htook⟩ := List.mem_filter.mp hsave
    exact ⟨save, hmem, Option.isNone_iff_eq_none.mp htook, heq⟩
  · rintro ⟨save, hmem, htook, heq⟩
    exact ⟨save, List.mem_filter.mpr ⟨hmem, Option.isNone_iff_eq_none.mpr htook⟩, heq⟩

theorem saves_of_kind {kind : ProviderKind} (h : w.selectedProviderKind = some kind) :
    w.saves = w.setup.saves kind := by
  rw [saves, h]
  rfl

theorem not_mem_fields_of_ne (hkind : w.selectedProviderKind ≠ some key.provider)
    {save : CredField × String} (hsave : save ∈ w.saves) (value : String) :
    (save.1, value) ∉ key.fields := by
  intro hfield
  cases hsel : w.selectedProviderKind with
  | none =>
    rw [saves, hsel] at hsave
    cases hsave
  | some kind =>
    rw [saves_of_kind hsel] at hsave
    have hname := CloudKey.provider_of_field hfield
    have hnames : kind.asStr = key.provider.asStr :=
      (SetupFields.provider_of_save hsave).symm.trans hname
    have hsame := asStr_injective hnames
    exact hkind (hsel.trans (congrArg some hsame))

section poll
variable (hjob : w.checkJob = some key)
include hjob

theorem poll_answered (result : Except String Unit) :
    (w.poll help result refused).answered = some key := by
  rw [poll, hjob]

theorem poll_kind (result : Except String Unit) :
    (w.poll help result refused).selectedProviderKind = w.selectedProviderKind := by
  rw [poll, hjob]
  exact apply_kind (w := { w with checkJob := none }) result

theorem poll_saved_error (err : String) :
    (w.poll help (.error err) refused).saved = w.saved := by
  rw [poll, hjob]
  rfl

theorem poll_saved_ok : (w.poll help (.ok ()) refused).saved =
    (w.taken refused).map (fun write => (key, write)) ++ w.saved := by
  rw [poll, hjob]
  rfl

theorem poll_shows : (w.poll help (.ok ()) refused).checkResult = some (.ok ()) ↔
    ∀ save ∈ w.saves, refused save.1 = none := by
  rw [poll, hjob]
  exact apply_shows (w := { w with checkJob := none })

theorem poll_savesChecked (h : w.SavesChecked) :
    (w.poll help (.ok ()) refused).SavesChecked ↔
      ∀ save ∈ w.saves, refused save.1 = none → (save.1, trim save.2) ∈ key.fields := by
  rw [SavesChecked, poll_saved_ok hjob]
  constructor
  · intro hnext save hsave htook
    have hwrite : (save.1, trim save.2) ∈ w.taken refused := mem_taken.mpr ⟨save, hsave, htook, rfl⟩
    exact hnext _ (List.mem_append_left _ (List.mem_map.mpr ⟨_, hwrite, rfl⟩))
  · intro hsaves entry hentry
    rcases List.mem_append.mp hentry with hnew | hold
    · obtain ⟨write, hwrite, rfl⟩ := List.mem_map.mp hnew
      obtain ⟨save, hsave, htook, rfl⟩ := mem_taken.mp hwrite
      exact hsaves save hsave htook
    · exact h entry hold

theorem poll_showsOwn : (w.poll help (.ok ()) refused).ShowsOwn ↔
    ((∀ save ∈ w.saves, refused save.1 = none) →
      w.selectedProviderKind = some key.provider) := by
  rw [ShowsOwn, poll_shows hjob, poll_answered hjob, poll_kind hjob]
  constructor
  · intro h hall
    obtain ⟨shown, hshown, hkind⟩ := h hall
    rw [Option.some.inj hshown]
    exact hkind
  · exact fun h hall => ⟨key, rfl, h hall⟩

theorem poll_onlyChecked (h : w.SavesChecked) :
    (w.poll help (.ok ()) refused).OnlyChecked ↔
      (w.selectedProviderKind = some key.provider ∧
        ∀ save ∈ w.setup.saves key.provider, refused save.1 = none →
          (save.1, trim save.2) ∈ key.fields) ∨
      (w.selectedProviderKind ≠ some key.provider ∧ w.saves ≠ [] ∧
        ∀ save ∈ w.saves, refused save.1 ≠ none) := by
  rw [OnlyChecked, poll_savesChecked hjob h, poll_showsOwn hjob]
  by_cases hkind : w.selectedProviderKind = some key.provider
  · have hsaves := saves_of_kind hkind
    rw [hsaves]
    constructor
    · exact fun hnext => .inl ⟨hkind, hnext.1⟩
    · rintro (⟨-, hsame⟩ | ⟨hother, -⟩)
      · exact ⟨hsame, fun _ => hkind⟩
      · exact absurd hkind hother
  · constructor
    · rintro ⟨htaken, hshown⟩
      have hrefused : ∀ save ∈ w.saves, refused save.1 ≠ none := by
        intro save hsave htook
        exact not_mem_fields_of_ne hkind hsave _ (htaken save hsave htook)
      refine .inr ⟨hkind, ?_, hrefused⟩
      intro hnone
      apply hkind
      apply hshown
      rw [hnone]
      exact fun _ hsave => nomatch hsave
    · rintro (⟨hsame, -⟩ | ⟨-, hsome, hrefused⟩)
      · exact absurd hsame hkind
      · refine ⟨fun save hsave htook => absurd htook (hrefused save hsave), fun hall => ?_⟩
        obtain ⟨save, hsave⟩ := List.exists_mem_of_ne_nil _ hsome
        exact absurd (hall save hsave) (hrefused save hsave)

end poll

theorem select_kind (idx : ℕ) (hsel : w.selectedProvider = some idx) :
    (w.selectProvider idx).selectedProviderKind = w.selectedProviderKind := by
  rw [selectProvider]
  split
  · rfl
  · rw [selectedProviderKind, selectedProviderKind, selectedRow, selectedRow, hsel]

theorem ShowsOwn.of_same {v : HostWizard} (h : w.ShowsOwn) (hresult : v.checkResult = w.checkResult)
    (hanswered : v.answered = w.answered)
    (hkind : v.selectedProviderKind = w.selectedProviderKind) : v.ShowsOwn := by
  rw [ShowsOwn, hresult, hanswered, hkind]
  exact h

theorem select_onlyChecked (h : w.OnlyChecked) (idx : ℕ) : (w.selectProvider idx).OnlyChecked := by
  cases hrow : w.providers[idx]? with
  | none =>
    have hsame : w.selectProvider idx = w := by rw [selectProvider, hrow]
    rw [hsame]
    exact h
  | some row =>
    by_cases hsel : w.selectedProvider = some idx
    · have hkept : (w.selectProvider idx).checkResult = w.checkResult := by
        rw [selectProvider, hrow]
        exact if_pos hsel
      have hanswered : (w.selectProvider idx).answered = w.answered := by rw [selectProvider, hrow]
      have hsaved : (w.selectProvider idx).saved = w.saved := by rw [selectProvider, hrow]
      refine ⟨?_, h.2.of_same hkept hanswered (select_kind idx hsel)⟩
      rw [SavesChecked, hsaved]
      exact h.1
    · have hcleared : (w.selectProvider idx).checkResult = none := by
        rw [selectProvider, hrow]
        exact if_neg hsel
      have hsaved : (w.selectProvider idx).saved = w.saved := by rw [selectProvider, hrow]
      refine ⟨?_, fun hshown => ?_⟩
      · rw [SavesChecked, hsaved]
        exact h.1
      · rw [hcleared] at hshown
        cases hshown

theorem beginCheck_onlyChecked (h : w.OnlyChecked) : (w.beginCheck help).OnlyChecked := by
  rw [beginCheck]
  split
  · exact h
  · cases w.providerFromSetup help with
    | ok key => exact ⟨h.1, fun hshown => nomatch hshown⟩
    | error err => exact ⟨h.1, fun hshown => nomatch hshown⟩

theorem OnlyChecked.step (h : w.OnlyChecked) {move : SetupMove} (hmove : w.StillAsChecked move) :
    (w.step help move).OnlyChecked := by
  cases move with
  | selectProvider idx => exact select_onlyChecked h idx
  | type field text => exact ⟨h.1, h.2.of_same rfl rfl rfl⟩
  | loadFile read =>
    rcases read with err | json
    · exact ⟨h.1, fun hshown => nomatch hshown⟩
    · exact ⟨h.1, fun hshown => nomatch hshown⟩
  | beginCheck => exact beginCheck_onlyChecked h
  | poll result refused =>
    change (w.poll help result refused).OnlyChecked
    cases hjob : w.checkJob with
    | none =>
      have hsame : w.poll help result refused = w := by rw [poll, hjob]
      rw [hsame]
      exact h
    | some key =>
      rcases result with err | ⟨⟩
      · refine ⟨?_, fun hshown => ?_⟩
        · rw [SavesChecked, poll_saved_error hjob]
          exact h.1
        · rw [poll, hjob] at hshown
          cases hshown
      · exact (poll_onlyChecked hjob h.1).mpr (hmove key hjob)

theorem OnlyChecked.stillAsChecked (h : w.OnlyChecked) {move : SetupMove}
    (hnext : (w.step help move).OnlyChecked) : w.StillAsChecked move := by
  cases move with
  | poll result refused =>
    rcases result with err | ⟨⟩
    · trivial
    · intro key hjob
      exact (poll_onlyChecked hjob h.1).mp hnext
  | _ => trivial

/-- The store holds what it held at first and what it took, and nothing else. -/
def Accounted (start : CredStore) (w : HostWizard) : Prop :=
  ∀ field value, w.creds.values field = some value →
    start.values field = some value ∨ ∃ entry ∈ w.saved, entry.2 = (field, value)

theorem saveAll_values (saves : List (CredField × String)) (creds : CredStore) {field : CredField}
    {value : String} (h : (saveAll refused saves creds).1.values field = some value) :
    creds.values field = some value ∨
      ∃ save ∈ saves, refused save.1 = none ∧ (save.1, trim save.2) = (field, value) := by
  induction saves generalizing creds with
  | nil => exact .inl h
  | cons save saves ih =>
    rcases ih _ h with hset | ⟨later, hlater, hrest⟩
    · rcases CredStore.values_of_set hset with hbefore | ⟨htook, hfield, hvalue⟩
      · exact .inl hbefore
      · have hnone : refused save.1 = none := Option.isNone_iff_eq_none.mp htook
        exact .inr ⟨save, List.mem_cons_self, hnone, Prod.ext hfield.symm hvalue⟩
    · exact .inr ⟨later, List.mem_cons_of_mem _ hlater, hrest⟩

theorem apply_creds : (applyCheckResult help w (.ok ()) refused).creds =
    (saveAll refused w.saves w.creds).1 := by
  rw [applyCheckResult]
  cases hsel : w.selectedProvider with
  | none =>
    have hnone : w.saves = [] := by
      rw [saves, selectedProviderKind, selectedRow, hsel]
      rfl
    rw [hnone]
    rfl
  | some idx =>
    dsimp only
    split <;> rfl

theorem Accounted.step {start : CredStore} (h : w.Accounted start) (move : SetupMove) :
    (w.step help move).Accounted start := by
  cases move with
  | selectProvider idx =>
    change (w.selectProvider idx).Accounted start
    rw [selectProvider]
    split
    · exact h
    · exact h
  | type field text => exact h
  | loadFile read => rcases read with err | json <;> exact h
  | beginCheck =>
    change (w.beginCheck help).Accounted start
    rw [beginCheck]
    split
    · exact h
    · cases w.providerFromSetup help <;> exact h
  | poll result refused =>
    change (w.poll help result refused).Accounted start
    cases hjob : w.checkJob with
    | none =>
      rw [poll, hjob]
      exact h
    | some key =>
      rcases result with err | ⟨⟩
      · rw [poll, hjob]
        exact h
      · intro field value hheld
        have hcreds : (w.poll help (.ok ()) refused).creds =
            (saveAll refused w.saves w.creds).1 := by
          rw [poll, hjob]
          exact apply_creds (w := { w with checkJob := none })
        rw [hcreds] at hheld
        rw [poll_saved_ok hjob]
        rcases saveAll_values w.saves w.creds hheld with hbefore | ⟨save, hsave, htook, heq⟩
        · refine (h field value hbefore).imp_right ?_
          rintro ⟨entry, hentry, hwrite⟩
          exact ⟨entry, List.mem_append_right _ hentry, hwrite⟩
        · have hwrite : (field, value) ∈ w.taken refused := mem_taken.mpr ⟨save, hsave, htook, heq⟩
          exact .inr ⟨(key, (field, value)),
            List.mem_append_left _ (List.mem_map.mpr ⟨_, hwrite, rfl⟩), rfl⟩

theorem run_accounted (help : SetupHelp) (providers : List ProviderRow) (creds : CredStore)
    (moves : List SetupMove) :
    (run (HostWizard.step help) (fresh providers creds) moves).Accounted creds :=
  run_invariant (P := Accounted creds) (fun _ move h => h.step move)
    (fun _ _ hheld => .inl hheld) moves

theorem fresh_onlyChecked (providers : List ProviderRow) (creds : CredStore) :
    (fresh providers creds).OnlyChecked :=
  ⟨fun _ hentry => (nomatch hentry), fun hshown => (nomatch hshown)⟩

theorem throughout_onlyChecked_iff (help : SetupHelp) (providers : List ProviderRow)
    (creds : CredStore) (moves : List SetupMove) :
    Throughout (HostWizard.step help) OnlyChecked (fresh providers creds) moves ↔
      Meets (HostWizard.step help) StillAsChecked (fresh providers creds) moves :=
  throughout_iff_meets (I := OnlyChecked) (fun _ h => h) (fun _ _ h hmove => h.step hmove)
    (fun _ _ h hnext => h.stillAsChecked hnext) (fresh_onlyChecked providers creds)

end HostWizard
end JamStream.Client
