import JamStream.Session.Control
import JamStream.Cloud.Provider
import JamStream.Foundations.Runs

/-! Where the app keeps its keys. A storage key is two entries of one store, each written on its
own, with the environment behind them. -/

namespace JamStream.Client
open Cloud Runs

abbrev CredField := String × String

abbrev KeyPair := String × String

/-- A store of fields, an empty value being none. -/
structure CredStore where
  values : CredField → Option String

namespace CredStore

def get (s : CredStore) (field : CredField) : Option String :=
  (s.values field).filter fun value => value ≠ ""

def set (s : CredStore) (field : CredField) (value : String) (works : Bool) : CredStore :=
  if works then { values := Function.update s.values field (some value) } else s

def delete (s : CredStore) (field : CredField) (works : Bool) : CredStore :=
  if works then { values := Function.update s.values field none } else s

@[simp] theorem get_set_same (s : CredStore) (field : CredField) (value : String) :
    (s.set field value true).get field = if value = "" then none else some value := by
  by_cases h : value = "" <;> simp [get, set, h]

theorem get_set_of_ne (s : CredStore) {field other : CredField} (h : other ≠ field)
    (value : String) (works : Bool) : (s.set field value works).get other = s.get other := by
  cases works
  · rfl
  · exact congrArg (Option.filter _) (Function.update_of_ne h _ _)

theorem values_of_set {s : CredStore} {field asked : CredField} {value found : String}
    {works : Bool} (h : (s.set field value works).values asked = some found) :
    s.values asked = some found ∨ works = true ∧ asked = field ∧ value = found := by
  cases works
  · exact .inl h
  · by_cases hsame : asked = field
    · subst hsame
      have hvalue : some value = some found := (Function.update_self asked _ s.values).symm.trans h
      exact .inr ⟨rfl, rfl, Option.some.inj hvalue⟩
    · exact .inl ((Function.update_of_ne hsame _ s.values).symm.trans h)

theorem values_of_delete {s : CredStore} {field asked : CredField} {found : String} {works : Bool}
    (h : (s.delete field works).values asked = some found) : s.values asked = some found := by
  cases works
  · exact h
  · by_cases hsame : asked = field
    · subst hsame
      have hnone : none = some found := (Function.update_self asked _ s.values).symm.trans h
      cases hnone
    · exact (Function.update_of_ne hsame _ s.values).symm.trans h

@[simp] theorem get_delete_same (s : CredStore) (field : CredField) :
    (s.delete field true).get field = none := by
  simp [get, delete]

theorem get_delete_of_ne (s : CredStore) {field other : CredField} (h : other ≠ field)
    (works : Bool) : (s.delete field works).get other = s.get other := by
  cases works
  · rfl
  · exact congrArg (Option.filter _) (Function.update_of_ne h _ _)

end CredStore

def storageKeyFields (provider : ProviderKind) : CredField × CredField :=
  ((provider.asStr, "storage_access_key_id"), (provider.asStr, "storage_secret_access_key"))

def recordingVars : String × String :=
  ("JAMSTREAM_RECORDING_ACCESS_KEY_ID", "JAMSTREAM_RECORDING_SECRET_ACCESS_KEY")

/-- The environment variables that carry a recording key, in the order they are read. A local
session records to its own disk and takes none. -/
def credentialVarPairs : ProviderKind → List (String × String)
  | .aws => [recordingVars]
  | .digitalOcean => [recordingVars, ("SPACES_ACCESS_KEY_ID", "SPACES_SECRET_ACCESS_KEY")]
  | .gcp => [recordingVars, ("GCS_ACCESS_KEY_ID", "GCS_SECRET_ACCESS_KEY")]
  | .localHost => []

def readVar (env : String → Option String) (key : String) : Option String :=
  (env key).filter fun value => value ≠ ""

/-- The environment's own pair, both halves of it set. -/
def credentialFrom (env : String → Option String) (provider : ProviderKind) : Option KeyPair :=
  (credentialVarPairs provider).findSome? fun vars =>
    (readVar env vars.1).bind fun id => (readVar env vars.2).map fun secret => (id, secret)

namespace CredStore

def storedPair (s : CredStore) (provider : ProviderKind) : Option KeyPair :=
  (s.get (storageKeyFields provider).1).bind fun id =>
    (s.get (storageKeyFields provider).2).map fun secret => (id, secret)

def storageCredential (s : CredStore) (env : String → Option String) (provider : ProviderKind) :
    Option KeyPair :=
  (s.storedPair provider).or (credentialFrom env provider)

/-- The id first and then the secret, and no secret behind an id that was not taken. -/
def saveStorageCredential (s : CredStore) (provider : ProviderKind)
    (accessKeyId secretAccessKey : String) (idWorks secretWorks : Bool) : CredStore × Bool :=
  let withId := s.set (storageKeyFields provider).1 (Session.trim accessKeyId) idWorks
  if idWorks then
    (withId.set (storageKeyFields provider).2 (Session.trim secretAccessKey) secretWorks,
      secretWorks)
  else (withId, false)

def forgetStorageCredential (s : CredStore) (provider : ProviderKind) (idWorks secretWorks : Bool) :
    CredStore :=
  (s.delete (storageKeyFields provider).1 idWorks).delete (storageKeyFields provider).2 secretWorks

end CredStore

theorem asStr_injective : Function.Injective ProviderKind.asStr := by
  intro p q h
  cases p <;> cases q <;> first | rfl | exact absurd h (by decide)

theorem secret_ne_id (p q : ProviderKind) : (storageKeyFields p).2 ≠ (storageKeyFields q).1 := by
  intro h
  exact absurd (congrArg Prod.snd h) (by decide : "storage_secret_access_key" ≠ "storage_access_key_id")

theorem id_ne_id {p q : ProviderKind} (h : p ≠ q) :
    (storageKeyFields p).1 ≠ (storageKeyFields q).1 := by
  intro hid
  have hname : p.asStr = q.asStr := congrArg Prod.fst hid
  exact h (asStr_injective hname)

theorem secret_ne_secret {p q : ProviderKind} (h : p ≠ q) :
    (storageKeyFields p).2 ≠ (storageKeyFields q).2 := by
  intro hsecret
  have hname : p.asStr = q.asStr := congrArg Prod.fst hsecret
  exact h (asStr_injective hname)

namespace CredStore
variable {s : CredStore} {provider other : ProviderKind}

theorem storedPair_of_get {t : CredStore}
    (hid : t.get (storageKeyFields provider).1 = s.get (storageKeyFields provider).1)
    (hsecret : t.get (storageKeyFields provider).2 = s.get (storageKeyFields provider).2) :
    t.storedPair provider = s.storedPair provider := by
  rw [storedPair, storedPair, hid, hsecret]

theorem storedPair_eq_some {pair : KeyPair} : s.storedPair provider = some pair ↔
    s.get (storageKeyFields provider).1 = some pair.1 ∧
      s.get (storageKeyFields provider).2 = some pair.2 := by
  rw [storedPair, Option.bind_eq_some_iff]
  constructor
  · rintro ⟨id, hid, hpair⟩
    obtain ⟨secret, hsecret, rfl⟩ := Option.map_eq_some_iff.mp hpair
    exact ⟨hid, hsecret⟩
  · rintro ⟨hid, hsecret⟩
    exact ⟨pair.1, hid, by rw [hsecret]; rfl⟩

theorem storedPair_save_of_ne (h : other ≠ provider) (id secret : String)
    (idWorks secretWorks : Bool) :
    (s.saveStorageCredential provider id secret idWorks secretWorks).1.storedPair other =
      s.storedPair other := by
  have hid := get_set_of_ne s (id_ne_id h) (Session.trim id) idWorks
  have hsecret := get_set_of_ne s (secret_ne_id other provider) (Session.trim id) idWorks
  rw [saveStorageCredential]
  split
  · refine storedPair_of_get ?_ ?_
    · rw [get_set_of_ne _ (secret_ne_id provider other).symm]
      exact hid
    · rw [get_set_of_ne _ (secret_ne_secret h)]
      exact hsecret
  · exact storedPair_of_get hid hsecret

theorem storedPair_forget {idWorks secretWorks : Bool} {pair : KeyPair}
    (h : (s.forgetStorageCredential provider idWorks secretWorks).storedPair other = some pair) :
    s.storedPair other = some pair := by
  have hkept : ∀ (t : CredStore) (field asked : CredField) (works : Bool) (value : String),
      (t.delete field works).get asked = some value → t.get asked = some value := by
    intro t field asked works value hget
    by_cases hsame : asked = field
    · subst hsame
      cases works
      · exact hget
      · rw [get_delete_same] at hget
        cases hget
    · rwa [get_delete_of_ne t hsame] at hget
  obtain ⟨hid, hsecret⟩ := storedPair_eq_some.mp h
  exact storedPair_eq_some.mpr
    ⟨hkept _ _ _ _ _ (hkept _ _ _ _ _ hid), hkept _ _ _ _ _ (hkept _ _ _ _ _ hsecret)⟩

theorem storedPair_save {id secret : String} {idWorks secretWorks : Bool} {pair : KeyPair}
    (h : (s.saveStorageCredential provider id secret idWorks secretWorks).1.storedPair provider =
      some pair) :
    idWorks = false ∧ s.storedPair provider = some pair ∨
    idWorks = true ∧ secretWorks = true ∧ pair = (Session.trim id, Session.trim secret) ∨
    idWorks = true ∧ secretWorks = false ∧ pair.1 = Session.trim id ∧ Session.trim id ≠ "" ∧
      s.get (storageKeyFields provider).2 = some pair.2 := by
  cases idWorks
  · exact .inl ⟨rfl, h⟩
  · right
    obtain ⟨hid, hsecret⟩ := storedPair_eq_some.mp h
    have hidkept := get_set_of_ne (s.set (storageKeyFields provider).1 (Session.trim id) true)
      (secret_ne_id provider provider).symm (Session.trim secret) secretWorks
    have hgot := hidkept.symm.trans hid
    rw [get_set_same] at hgot
    split at hgot
    · cases hgot
    next hsome =>
      have hfirst : pair.1 = Session.trim id := (Option.some.inj hgot).symm
      cases secretWorks
      · have hbefore := get_set_of_ne s (secret_ne_id provider provider) (Session.trim id) true
        exact .inr ⟨rfl, rfl, hfirst, hsome, hbefore.symm.trans hsecret⟩
      · have hnew : (((s.set (storageKeyFields provider).1 (Session.trim id) true).set
            (storageKeyFields provider).2 (Session.trim secret) true).get
              (storageKeyFields provider).2) = some pair.2 := hsecret
        rw [get_set_same] at hnew
        split at hnew
        · cases hnew
        · exact .inl ⟨rfl, rfl, Prod.ext hfirst (Option.some.inj hnew).symm⟩

theorem storedPair_half_save {id secret kept : String} (hid : Session.trim id ≠ "")
    (hkept : s.get (storageKeyFields provider).2 = some kept) :
    (s.saveStorageCredential provider id secret true false).1.storedPair provider =
      some (Session.trim id, kept) := by
  refine storedPair_eq_some.mpr ⟨?_, ?_⟩
  · have hnew := get_set_same s (storageKeyFields provider).1 (Session.trim id)
    rw [if_neg hid] at hnew
    exact hnew
  · exact (get_set_of_ne s (secret_ne_id provider provider) (Session.trim id) true).trans hkept

end CredStore

/-! The pairs that were handed to a save, beside the store they went into. -/

structure KeptPairs where
  store : CredStore
  given : List (ProviderKind × KeyPair)

inductive PairCall
  | save (provider : ProviderKind) (accessKeyId secretAccessKey : String)
      (idWorks secretWorks : Bool)
  | forget (provider : ProviderKind) (idWorks secretWorks : Bool)

namespace KeptPairs

def fresh : KeptPairs := { store := { values := fun _ => none }, given := [] }

def step (k : KeptPairs) : PairCall → KeptPairs
  | .save provider id secret idWorks secretWorks =>
    { store := (k.store.saveStorageCredential provider id secret idWorks secretWorks).1
      given := (provider, (Session.trim id, Session.trim secret)) :: k.given }
  | .forget provider idWorks secretWorks =>
    { k with store := k.store.forgetStorageCredential provider idWorks secretWorks }

def NotMixed (env : String → Option String) (k : KeptPairs) : Prop :=
  ∀ provider pair, k.store.storageCredential env provider = some pair →
    (provider, pair) ∈ k.given ∨ credentialFrom env provider = some pair

/-- No id is written beside a secret it was not given with. -/
def KeepsPairs (env : String → Option String) (k : KeptPairs) : PairCall → Prop
  | .save provider id secret idWorks secretWorks =>
    idWorks = true → secretWorks = false → Session.trim id ≠ "" →
      ∀ kept, k.store.get (storageKeyFields provider).2 = some kept →
        (provider, (Session.trim id, kept)) ∈
            (provider, (Session.trim id, Session.trim secret)) :: k.given ∨
          credentialFrom env provider = some (Session.trim id, kept)
  | .forget _ _ _ => True

variable {env : String → Option String} {k : KeptPairs}

theorem notMixed_iff : NotMixed env k ↔ ∀ provider pair,
    k.store.storedPair provider = some pair →
      (provider, pair) ∈ k.given ∨ credentialFrom env provider = some pair := by
  constructor
  · intro h provider pair hstored
    refine h provider pair ?_
    rw [CredStore.storageCredential, hstored]
    rfl
  · intro h provider pair hgot
    rw [CredStore.storageCredential] at hgot
    rcases Option.or_eq_some_iff.mp hgot with hstored | ⟨-, henv⟩
    · exact h provider pair hstored
    · exact .inr henv

theorem fresh_notMixed (env : String → Option String) : NotMixed env fresh := by
  refine notMixed_iff.mpr fun provider pair hstored => ?_
  cases hstored

theorem NotMixed.step (hk : NotMixed env k) {call : PairCall} (hcall : KeepsPairs env k call) :
    NotMixed env (k.step call) := by
  rw [notMixed_iff] at hk ⊢
  intro asked pair hstored
  cases call with
  | forget provider idWorks secretWorks => exact hk asked pair (CredStore.storedPair_forget hstored)
  | save provider id secret idWorks secretWorks =>
    have hearlier : k.store.storedPair asked = some pair →
        (asked, pair) ∈ (provider, (Session.trim id, Session.trim secret)) :: k.given ∨
          credentialFrom env asked = some pair :=
      fun h => (hk asked pair h).imp_left (List.mem_cons_of_mem _)
    by_cases hsame : asked = provider
    · subst hsame
      rcases CredStore.storedPair_save hstored with ⟨-, hold⟩ | ⟨-, -, rfl⟩ | hhalf
      · exact hearlier hold
      · exact .inl List.mem_cons_self
      · obtain ⟨hid, hsecret, hfirst, hsome, hkept⟩ := hhalf
        have hpair : pair = (Session.trim id, pair.2) := Prod.ext hfirst rfl
        rw [hpair]
        exact hcall hid hsecret hsome pair.2 hkept
    · exact hearlier ((CredStore.storedPair_save_of_ne hsame id secret idWorks secretWorks).symm.trans
        hstored)

theorem NotMixed.keepsPairs {call : PairCall} (hnext : NotMixed env (k.step call)) :
    KeepsPairs env k call := by
  cases call with
  | forget provider idWorks secretWorks => trivial
  | save provider id secret idWorks secretWorks =>
    rintro rfl rfl hsome kept hkept
    have hhalf : (k.store.saveStorageCredential provider id secret true false).1.storedPair
        provider = some (Session.trim id, kept) := CredStore.storedPair_half_save hsome hkept
    exact notMixed_iff.mp hnext provider _ hhalf

/-- Storage keys stay whole through a history exactly when no id was ever written beside a secret
that was not its own. -/
theorem pairs_never_mixed_iff (env : String → Option String) (calls : List PairCall) :
    Throughout step (NotMixed env) fresh calls ↔ Meets step (KeepsPairs env) fresh calls :=
  throughout_iff_meets (I := NotMixed env) (fun _ h => h) (fun _ _ hk hcall => hk.step hcall)
    (fun _ _ _ hnext => hnext.keepsPairs) (fresh_notMixed env)

/-- The second save writes its id and not its secret, and leaves the first one's beside it. -/
theorem half_saved_pair_is_mixed :
    (run step fresh [.save .aws "A1" "S1" true true,
        .save .aws "A2" "S2" true false]).store.storageCredential (fun _ => none) .aws =
      some ("A2", "S1") ∧
    ¬Throughout step (NotMixed fun _ => none) fresh
      [.save .aws "A1" "S1" true true, .save .aws "A2" "S2" true false] := by
  have hgot : (run step fresh [.save .aws "A1" "S1" true true,
      .save .aws "A2" "S2" true false]).store.storageCredential (fun _ => none) .aws =
        some ("A2", "S1") := by decide +kernel
  refine ⟨hgot, fun h => ?_⟩
  rcases h.last .aws ("A2", "S1") hgot with hgiven | henv
  · revert hgiven
    decide +kernel
  · revert henv
    decide +kernel

end KeptPairs
end JamStream.Client
