import JamStream.Cloud.BootText
import JamStream.Cloud.Provider
import JamStream.Cloud.Retention
import JamStream.Foundations.PaddedBase64

/-! Where a session records to, as text. `debug` is how a string is quoted in a message. -/

namespace JamStream.Cloud
open Foundations Foundations.Lines Session

def ProviderKind.all : List ProviderKind := [.localHost, .digitalOcean, .aws, .gcp]

def ProviderKind.hasObjectStorage : ProviderKind → Bool
  | .aws | .digitalOcean | .gcp => true
  | .localHost => false

def ProviderKind.fromStr (debug : Text → String) (s : Text) : Except ProviderError ProviderKind :=
  match ProviderKind.all.find? fun kind => kind.asStr.toList = (trimmed s).map Char.toLower with
  | some kind => .ok kind
  | none => .error (.other ("unknown provider " ++ debug s ++ "; known providers are " ++
      String.intercalate ", " (ProviderKind.all.map ProviderKind.asStr)))

namespace Retention

def asStr : Retention → String
  | .keepForever => "forever"
  | .days7 => "7d"
  | .days30 => "30d"
  | .days90 => "90d"

def spellings : List (Retention × List String) :=
  [(.keepForever, ["forever", "keep", "keepforever", "keep-forever"]),
    (.days7, ["7d", "7", "week"]), (.days30, ["30d", "30", "month"]),
    (.days90, ["90d", "90", "quarter"])]

def fromStr (debug : Text → String) (s : Text) : Except ProviderError Retention :=
  let normalized := (trimmed s).map Char.toLower
  match spellings.find? fun r => (r.2.map String.toList).contains normalized with
  | some r => .ok r.1
  | none => .error (.other ("unknown retention " ++ debug normalized ++
      "; choose one of 7d, 30d, 90d, forever"))

end Retention

structure StorageCredential where
  accessKeyId : String
  secretAccessKey : String
deriving DecidableEq

structure RecordingStorage where
  provider : ProviderKind
  bucket : String
  region : String
  retention : Retention
  credential : StorageCredential
  stems : Bool
deriving DecidableEq

def utf8 (s : String) : List UInt8 := s.toByteArray.data.toList

def fromUtf8 (bytes : List UInt8) : Option String := String.fromUTF8? ⟨bytes.toArray⟩

namespace RecordingStorage

def flatEntries (r : RecordingStorage) : List (Text × Text) :=
  [("provider".toList, r.provider.asStr.toList),
    ("bucket".toList, r.bucket.toList),
    ("region".toList, r.region.toList),
    ("retention".toList, r.retention.asStr.toList),
    ("stems".toList, (if r.stems then "true" else "false").toList),
    ("access_key_id".toList, r.credential.accessKeyId.toList),
    ("secret_access_key_b64".toList,
      PaddedBase64.encode (utf8 r.credential.secretAccessKey))]

def renderFlatConfig (r : RecordingStorage) : Text := flatFile r.flatEntries

def want (text : Text) (key : String) : Except String Text :=
  match flatConfigValue text key.toList with
  | some value => .ok value
  | none => .error ("recording config is missing " ++ key)

def readProvider (debug : Text → String) (s : Text) : Except String ProviderKind :=
  match ProviderKind.fromStr debug s with
  | .error e => .error ("recording config: " ++ e.display)
  | .ok provider =>
    if provider.hasObjectStorage then .ok provider
    else .error ("recording config names provider " ++ provider.asStr ++
      ", which has no bucket to record to")

def readRetention (debug : Text → String) (s : Text) : Except String Retention :=
  match Retention.fromStr debug s with
  | .error e => .error ("recording config retention: " ++ e.display)
  | .ok retention => .ok retention

def readStems (debug : Text → String) : Option Text → Except String Bool
  | none => .ok false
  | some value =>
    if value = "true".toList then .ok true
    else if value = "false".toList then .ok false
    else .error ("recording config stems is " ++ debug value)

def decodeSecret (key : String) (b64 : Text) : Except String String :=
  match PaddedBase64.decode b64 with
  | none => .error ("recording config " ++ key ++ " is not base64")
  | some bytes =>
    match fromUtf8 bytes with
    | none => .error (key ++ " is not utf-8")
    | some secret => .ok secret

def parseFlatConfig (debug : Text → String) (text : Text) : Except String RecordingStorage := do
  let provider ← (want text "provider").bind (readProvider debug)
  let retention ← (want text "retention").bind (readRetention debug)
  let stems ← readStems debug (flatConfigValue text "stems".toList)
  let accessKeyId ← want text "access_key_id"
  let secretAccessKey ← (want text "secret_access_key_b64").bind
    (decodeSecret "secret_access_key_b64")
  let bucket ← want text "bucket"
  let region ← want text "region"
  pure
    { provider, retention, stems
      bucket := String.ofList bucket
      region := String.ofList region
      credential := ⟨String.ofList accessKeyId, secretAccessKey⟩ }

structure Writable (r : RecordingStorage) : Prop where
  bucket : Clean r.bucket.toList
  region : Clean r.region.toList
  accessKeyId : Clean r.credential.accessKeyId.toList

variable {r : RecordingStorage}

theorem fromUtf8_utf8 (s : String) : fromUtf8 (utf8 s) = some s := by
  have hvalid : (⟨s.toByteArray.data⟩ : ByteArray).IsValidUTF8 := s.isValidUTF8
  rw [fromUtf8, utf8, Array.toArray_toList, String.fromUTF8?, dif_pos hvalid]
  rfl

theorem clean_base64 (bytes : List UInt8) : Clean (PaddedBase64.encode bytes) :=
  clean_of_range (PaddedBase64.inRange_encode bytes)

theorem clean_of_all {text : Text}
    (h : text.all (fun c => 43 ≤ c.toNat && c.toNat ≤ 122) = true) : Clean text := by
  refine clean_of_range fun c hc => ?_
  simpa only [Bool.and_eq_true, decide_eq_true_eq] using List.all_eq_true.mp h c hc

theorem Writable.entries (h : r.Writable) : ∀ kv ∈ r.flatEntries, Key kv.1 ∧ Clean kv.2 := by
  have hkeys : ∀ key ∈ r.flatEntries.map Prod.fst, Key key := by
    have hall : (r.flatEntries.map Prod.fst).all (fun key =>
        !key.isEmpty && key.all fun c => c.isAlphanum || c == '_') = true := by
      show (["provider".toList, "bucket".toList, "region".toList, "retention".toList,
        "stems".toList, "access_key_id".toList, "secret_access_key_b64".toList].all _) = true
      decide
    intro key hkey
    obtain ⟨hne, hword⟩ := Bool.and_eq_true_iff.mp (List.all_eq_true.mp hall key hkey)
    refine ⟨?_, hword⟩
    rintro rfl
    cases hne
  have hvalues : ∀ kv ∈ r.flatEntries, Clean kv.2 := by
    intro kv hkv
    simp only [flatEntries, List.mem_cons, List.not_mem_nil, or_false] at hkv
    rcases hkv with rfl | rfl | rfl | rfl | rfl | rfl | rfl
    · cases r.provider <;> exact clean_of_all (by decide)
    · exact h.bucket
    · exact h.region
    · cases r.retention <;> exact clean_of_all (by decide)
    · cases r.stems <;> exact clean_of_all (by decide)
    · exact h.accessKeyId
    · exact clean_base64 _
  exact fun kv hkv => ⟨hkeys kv.1 (List.mem_map_of_mem hkv), hvalues kv hkv⟩

theorem keys_nodup (r : RecordingStorage) : (r.flatEntries.map Prod.fst).Nodup := by
  show (["provider".toList, "bucket".toList, "region".toList, "retention".toList,
    "stems".toList, "access_key_id".toList, "secret_access_key_b64".toList]).Nodup
  decide

theorem Writable.read (h : r.Writable) {key value : Text} (hin : (key, value) ∈ r.flatEntries) :
    flatConfigValue r.renderFlatConfig key = some value :=
  flatConfigValue_flatFile h.entries r.keys_nodup hin

theorem Writable.want (h : r.Writable) {key : String} {value : Text}
    (hin : (key.toList, value) ∈ r.flatEntries) : want r.renderFlatConfig key = .ok value := by
  rw [RecordingStorage.want, h.read hin]

theorem readProvider_asStr (debug : Text → String) {provider : ProviderKind}
    (h : provider.hasObjectStorage = true) :
    readProvider debug provider.asStr.toList = .ok provider := by
  have hfind : ∀ p : ProviderKind, ProviderKind.all.find?
      (fun kind => kind.asStr.toList = (trimmed p.asStr.toList).map Char.toLower) = some p := by
    intro p
    cases p <;> decide
  rw [readProvider, ProviderKind.fromStr, hfind]
  exact if_pos h

theorem readRetention_asStr (debug : Text → String) (retention : Retention) :
    readRetention debug retention.asStr.toList = .ok retention := by
  have hfind : (Retention.spellings.find? fun s => (s.2.map String.toList).contains
      ((trimmed retention.asStr.toList).map Char.toLower)).map Prod.fst = some retention := by
    cases retention <;> decide
  obtain ⟨s, hs, hretention⟩ := Option.map_eq_some_iff.mp hfind
  simp only [readRetention, Retention.fromStr, hs, hretention]

theorem readStems_bool (debug : Text → String) (stems : Bool) :
    readStems debug (some (if stems then "true" else "false").toList) = .ok stems := by
  cases stems <;> rfl

theorem parse_render (debug : Text → String) (h : r.Writable)
    (hstorage : r.provider.hasObjectStorage = true) :
    parseFlatConfig debug r.renderFlatConfig = .ok r := by
  have hprovider : want r.renderFlatConfig "provider" = .ok r.provider.asStr.toList :=
    h.want (by simp [flatEntries])
  have hretention : want r.renderFlatConfig "retention" = .ok r.retention.asStr.toList :=
    h.want (by simp [flatEntries])
  have hstems : flatConfigValue r.renderFlatConfig "stems".toList =
      some (if r.stems then "true" else "false").toList := h.read (by simp [flatEntries])
  have hkey : want r.renderFlatConfig "access_key_id" = .ok r.credential.accessKeyId.toList :=
    h.want (by simp [flatEntries])
  have hsecret : want r.renderFlatConfig "secret_access_key_b64" =
      .ok (PaddedBase64.encode (utf8 r.credential.secretAccessKey)) :=
    h.want (by simp [flatEntries])
  have hbucket : want r.renderFlatConfig "bucket" = .ok r.bucket.toList :=
    h.want (by simp [flatEntries])
  have hregion : want r.renderFlatConfig "region" = .ok r.region.toList :=
    h.want (by simp [flatEntries])
  have hdecode : decodeSecret "secret_access_key_b64"
      (PaddedBase64.encode (utf8 r.credential.secretAccessKey)) =
        .ok r.credential.secretAccessKey := by
    rw [decodeSecret, PaddedBase64.decode_encode]
    simp only [fromUtf8_utf8]
  unfold parseFlatConfig
  rw [hprovider, hretention, hstems, readStems_bool, hkey, hsecret, hbucket, hregion]
  simp only [Except.bind, bind, pure, Except.pure, readProvider_asStr debug hstorage,
    readRetention_asStr, hdecode, String.ofList_toList]

end RecordingStorage
end JamStream.Cloud
