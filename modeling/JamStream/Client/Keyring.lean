import JamStream.Foundations.Runs

/-! Keys in the platform's keychain, with a private file for the one it refuses as too long. Each
of the two can fail on its own, and reads ask the keychain first. -/

namespace JamStream.Client
open Runs

@[ext] structure CredName where
  text : String
  plain : text.toList.all (fun c => c.isLower || c == '_') = true
deriving DecidableEq

abbrev CredKey := CredName × CredName

def account (key : CredKey) : String := key.1.text ++ "." ++ key.2.text

theorem CredName.dot_notMem (name : CredName) : '.' ∉ name.text.toList := by
  intro hdot
  exact absurd (List.all_eq_true.mp name.plain '.' hdot) (by decide)

theorem account_injective : Function.Injective account := by
  intro a b h
  have hchars := congrArg String.toList h
  have hlist : ∀ key : CredKey, (account key).toList =
      key.1.text.toList ++ '.' :: key.2.text.toList := by
    intro key
    simp [account]
  rw [hlist, hlist] at hchars
  have hsplit := (List.append_cons_inj_of_notMem (CredName.dot_notMem _)
    (CredName.dot_notMem _)).mp hchars
  have hprovider : a.1 = b.1 := CredName.ext (String.toList_injective hsplit.1)
  have hfield : a.2 = b.2 := CredName.ext (String.toList_injective hsplit.2.2)
  exact Prod.ext hprovider hfield

inductive KeychainSet
  | ok
  | tooLong
  | other (error : String)

structure SaveFates where
  keychain : KeychainSet
  writes : Except String Unit
  deletes : Bool
  removes : Bool

structure KeyringStore where
  keychain : String → Option String
  files : String → Option String
  /-- Where a value too long for the keychain goes, or why there is no such place. -/
  fallbackDir : Except String String

namespace KeyringStore

def readKeychain (s : KeyringStore) (name : String) : Option String :=
  (s.keychain name).filter fun value => value ≠ ""

def readFallback (s : KeyringStore) (name : String) : Option String :=
  match s.fallbackDir with
  | .error _ => none
  | .ok _ => (s.files name).filter fun value => value ≠ ""

def get (s : KeyringStore) (key : CredKey) : Option String :=
  (s.readKeychain (account key)).or (s.readFallback (account key))

def deleteKeychain (s : KeyringStore) (name : String) (works : Bool) : KeyringStore :=
  if works then { s with keychain := Function.update s.keychain name none } else s

def removeFile (s : KeyringStore) (name : String) (works : Bool) : KeyringStore :=
  match s.fallbackDir with
  | .error _ => s
  | .ok _ => if works then { s with files := Function.update s.files name none } else s

def tooLong : String := "this key is longer than the keychain allows"

def setFallback (s : KeyringStore) (key : CredKey) (value : String) (writes : Except String Unit) :
    Except String KeyringStore :=
  match s.fallbackDir with
  | .error e =>
    .error (tooLong ++ ", and there is no private directory to keep it in instead: " ++ e)
  | .ok dir =>
    match writes with
    | .error e => .error (tooLong ++ ", and keeping it as a private file failed: cannot write " ++
        dir ++ "/" ++ account key ++ ": " ++ e)
    | .ok _ => .ok { s with files := Function.update s.files (account key) (some value) }

/-- A save, and what it answers. A shorter value saved over one that was too long takes its file
away; a longer one takes the keychain's away. -/
def set (s : KeyringStore) (key : CredKey) (value : String) (fates : SaveFates) :
    KeyringStore × Except String Unit :=
  match fates.keychain with
  | .ok =>
    ({ s with keychain := Function.update s.keychain (account key) (some value) }.removeFile
      (account key) fates.removes, .ok ())
  | .tooLong =>
    match s.setFallback key value fates.writes with
    | .error e => (s, .error e)
    | .ok written => (written.deleteKeychain (account key) fates.deletes, .ok ())
  | .other e => (s, .error ("keychain: " ++ e))

def delete (s : KeyringStore) (key : CredKey) (deletes removes : Bool) : KeyringStore :=
  (s.deleteKeychain (account key) deletes).removeFile (account key) removes

inductive Call
  | get (key : CredKey)
  | set (key : CredKey) (value : String) (fates : SaveFates)
  | delete (key : CredKey) (deletes removes : Bool)

def step (s : KeyringStore) : Call → KeyringStore
  | .get _ => s
  | .set key value fates => (s.set key value fates).1
  | .delete key deletes removes => s.delete key deletes removes

def Call.changes : Call → Option CredKey
  | .get _ => none
  | .set key _ _ => some key
  | .delete key _ _ => some key

theorem get_congr {s t : KeyringStore} {key : CredKey} (hdir : t.fallbackDir = s.fallbackDir)
    (hkeychain : t.keychain (account key) = s.keychain (account key))
    (hfiles : t.files (account key) = s.files (account key)) : t.get key = s.get key := by
  simp only [get, readKeychain, readFallback, hdir, hkeychain, hfiles]

section Places
variable (s : KeyringStore) (name : String) (works : Bool)

@[simp] theorem deleteKeychain_files : (s.deleteKeychain name works).files = s.files := by
  cases works <;> rfl

@[simp] theorem deleteKeychain_fallbackDir :
    (s.deleteKeychain name works).fallbackDir = s.fallbackDir := by
  cases works <;> rfl

theorem deleteKeychain_keychain : (s.deleteKeychain name works).keychain =
    if works then Function.update s.keychain name none else s.keychain := by
  cases works <;> rfl

@[simp] theorem removeFile_keychain : (s.removeFile name works).keychain = s.keychain := by
  rw [removeFile]
  cases s.fallbackDir <;> cases works <;> rfl

@[simp] theorem removeFile_fallbackDir :
    (s.removeFile name works).fallbackDir = s.fallbackDir := by
  simp only [removeFile]
  split
  · rfl
  · cases works <;> rfl

theorem removeFile_files_of_ne {other : String} (h : other ≠ name) :
    (s.removeFile name works).files other = s.files other := by
  rw [removeFile]
  cases s.fallbackDir <;> cases works <;> first | rfl | exact Function.update_of_ne h _ _

theorem deleteKeychain_of_ne {other : String} (h : other ≠ name) :
    (s.deleteKeychain name works).keychain other = s.keychain other := by
  cases works <;> first | rfl | exact Function.update_of_ne h _ _

end Places

theorem set_cases (s : KeyringStore) (key : CredKey) (value : String) (fates : SaveFates) :
    ((∃ e, s.set key value fates = (s, .error e)) ∧ ¬(fates.keychain = .tooLong ∧
      fates.writes.isOk = true ∧ s.fallbackDir.isOk = true)) ∨
    (fates.keychain = .ok ∧ s.set key value fates =
      ({ s with keychain := Function.update s.keychain (account key) (some value) }.removeFile
        (account key) fates.removes, .ok ())) ∨
    (fates.keychain = .tooLong ∧ fates.writes.isOk = true ∧ s.fallbackDir.isOk = true ∧
      s.set key value fates =
        ({ s with files := Function.update s.files (account key) (some value) }.deleteKeychain
          (account key) fates.deletes, .ok ())) := by
  obtain ⟨keychain, writes, deletes, removes⟩ := fates
  cases keychain with
  | ok => exact .inr (.inl ⟨rfl, rfl⟩)
  | other e => exact .inl ⟨⟨_, rfl⟩, fun h => (nomatch h.1)⟩
  | tooLong =>
    obtain ⟨held, files, fallbackDir⟩ := s
    cases fallbackDir with
    | error e => exact .inl ⟨⟨_, rfl⟩, fun h => (nomatch h.2.2)⟩
    | ok dir =>
      cases writes with
      | error e => exact .inl ⟨⟨_, rfl⟩, fun h => (nomatch h.2.1)⟩
      | ok _ => exact .inr (.inr ⟨rfl, rfl, rfl, rfl⟩)

theorem set_other (s : KeyringStore) {key other : CredKey} (h : other ≠ key) (value : String)
    (fates : SaveFates) : (s.set key value fates).1.get other = s.get other := by
  have hname : account other ≠ account key := fun heq => h (account_injective heq)
  rcases s.set_cases key value fates with ⟨⟨e, hset⟩, -⟩ | ⟨-, hset⟩ | ⟨-, -, -, hset⟩
  · rw [hset]
  · rw [hset]
    refine get_congr (removeFile_fallbackDir _ _ _) ?_ ?_
    · rw [removeFile_keychain]
      exact Function.update_of_ne hname _ _
    · exact removeFile_files_of_ne _ _ _ hname
  · rw [hset]
    refine get_congr (deleteKeychain_fallbackDir _ _ _) (deleteKeychain_of_ne _ _ _ hname) ?_
    rw [deleteKeychain_files]
    exact Function.update_of_ne hname _ _

theorem delete_other (s : KeyringStore) {key other : CredKey} (h : other ≠ key)
    (deletes removes : Bool) : (s.delete key deletes removes).get other = s.get other := by
  have hname : account other ≠ account key := fun heq => h (account_injective heq)
  refine get_congr ?_ ?_ ?_
  · rw [delete, removeFile_fallbackDir, deleteKeychain_fallbackDir]
  · rw [delete, removeFile_keychain, deleteKeychain_of_ne _ _ _ hname]
  · rw [delete, removeFile_files_of_ne _ _ _ hname, deleteKeychain_files]

theorem step_other (s : KeyringStore) {call : Call} {other : CredKey}
    (h : call.changes ≠ some other) : (s.step call).get other = s.get other := by
  cases call with
  | get key => rfl
  | set key value fates => exact set_other s (fun heq => h (congrArg some heq.symm)) value fates
  | delete key deletes removes =>
    exact delete_other s (fun heq => h (congrArg some heq.symm)) deletes removes

/-! What one call owes the calls after it. -/

/-- A save that answered well reads back, one that did not changes nothing, and a key that was
deleted is gone. -/
def Right (s : KeyringStore) : Call → Prop
  | .get _ => True
  | .set key value fates =>
    ((s.set key value fates).2 = .ok () → value ≠ "" →
      (s.set key value fates).1.get key = some value) ∧
    ((s.set key value fates).2 ≠ .ok () → (s.set key value fates).1.get key = s.get key)
  | .delete key deletes removes => (s.delete key deletes removes).get key = none

/-- A place that has to be cleared is cleared, or holds nothing that would be read. -/
def Clears (s : KeyringStore) : Call → Prop
  | .get _ => True
  | .set key value fates =>
    fates.keychain = .tooLong → fates.writes.isOk = true → s.fallbackDir.isOk = true →
      fates.deletes = false → value ≠ "" →
        ∀ held, s.readKeychain (account key) = some held → held = value
  | .delete key deletes removes =>
    (deletes = false → s.readKeychain (account key) = none) ∧
      (removes = false → s.readFallback (account key) = none)

theorem readKeychain_deleteKeychain (s : KeyringStore) (name : String) (works : Bool) :
    (s.deleteKeychain name works).readKeychain name =
      if works then none else s.readKeychain name := by
  cases works
  · rfl
  · rw [readKeychain, deleteKeychain_keychain, if_pos rfl, Function.update_self]
    rfl

theorem readFallback_removeFile (s : KeyringStore) (name : String) (works : Bool) :
    (s.removeFile name works).readFallback name =
      if works then none else s.readFallback name := by
  obtain ⟨keychain, files, fallbackDir⟩ := s
  cases fallbackDir with
  | error e => cases works <;> rfl
  | ok dir =>
    cases works
    · rfl
    · simp [readFallback, removeFile]

theorem get_eq_none (s : KeyringStore) (key : CredKey) : s.get key = none ↔
    s.readKeychain (account key) = none ∧ s.readFallback (account key) = none :=
  Option.or_eq_none_iff

theorem filter_some_of_ne {value : String} (h : value ≠ "") :
    (some value).filter (fun value => decide (value ≠ "")) = some value :=
  (Option.filter_some ..).trans (if_pos (decide_eq_true h))

theorem get_of_keychain (s : KeyringStore) (key : CredKey) {value : String} (h : value ≠ "")
    (hheld : s.keychain (account key) = some value) : s.get key = some value := by
  rw [get, readKeychain, hheld, filter_some_of_ne h]
  rfl

theorem get_of_file (s : KeyringStore) (key : CredKey) {value : String} (h : value ≠ "")
    (hdir : s.fallbackDir.isOk = true) (hfile : s.files (account key) = some value) :
    s.get key = some value ↔ ∀ held, s.readKeychain (account key) = some held → held = value := by
  obtain ⟨keychain, files, fallbackDir⟩ := s
  cases fallbackDir with
  | error e => cases hdir
  | ok dir =>
    have hread : readFallback ⟨keychain, files, .ok dir⟩ (account key) = some value := by
      change (files (account key)).filter _ = _
      rw [show files (account key) = some value from hfile]
      exact filter_some_of_ne h
    rw [get, hread]
    cases readKeychain ⟨keychain, files, .ok dir⟩ (account key) with
    | none => exact ⟨fun _ held hheld => (nomatch hheld), fun _ => rfl⟩
    | some held =>
      refine ⟨fun hget other hother => ?_, fun hall => congrArg some (hall held rfl)⟩
      exact (Option.some.inj hother).symm.trans (Option.some.inj hget)

theorem right_set_iff (s : KeyringStore) (key : CredKey) (value : String) (fates : SaveFates) :
    Right s (.set key value fates) ↔ Clears s (.set key value fates) := by
  rw [Right, Clears]
  rcases s.set_cases key value fates with
    ⟨⟨e, hset⟩, hnot⟩ | ⟨hok, hset⟩ | ⟨hlong, hwrites, hdir, hset⟩
  · rw [hset]
    have hsame : (Except.error e : Except String Unit) = .ok () → value ≠ "" →
        s.get key = some value := fun h => (nomatch h)
    exact iff_of_true ⟨hsame, fun _ => rfl⟩
      fun hlong hwrites hdir => absurd ⟨hlong, hwrites, hdir⟩ hnot
  · rw [hset]
    refine iff_of_true ⟨fun _ hsome => ?_, fun h => absurd rfl h⟩ fun hlong => ?_
    · refine get_of_keychain _ key hsome ?_
      rw [removeFile_keychain]
      exact Function.update_self _ _ _
    · rw [hok] at hlong
      cases hlong
  · rw [hset]
    -- the value is in the file, so what is left in the keychain decides
    let written : KeyringStore :=
      { s with files := Function.update s.files (account key) (some value) }
    have hget : value ≠ "" →
        ((written.deleteKeychain (account key) fates.deletes).get key = some value ↔
          (fates.deletes = false →
            ∀ held, s.readKeychain (account key) = some held → held = value)) := by
      intro hsome
      rw [get_of_file _ key hsome]
      · rw [readKeychain_deleteKeychain]
        cases fates.deletes
        · exact ⟨fun h _ => h, fun h => h rfl⟩
        · exact iff_of_true (fun held hheld => (nomatch hheld)) (fun h => (nomatch h))
      · rw [deleteKeychain_fallbackDir]
        exact hdir
      · rw [deleteKeychain_files]
        exact Function.update_self _ _ _
    constructor
    · intro hright _ _ _ hkept hsome
      exact (hget hsome).mp (hright.1 rfl hsome) hkept
    · intro hclears
      refine ⟨fun _ hsome => (hget hsome).mpr fun hkept => ?_, fun h => absurd rfl h⟩
      exact hclears hlong hwrites hdir hkept hsome

theorem right_delete_iff (s : KeyringStore) (key : CredKey) (deletes removes : Bool) :
    Right s (.delete key deletes removes) ↔ Clears s (.delete key deletes removes) := by
  have hkeychain : (s.delete key deletes removes).readKeychain (account key) =
      if deletes then none else s.readKeychain (account key) := by
    rw [readKeychain, delete, removeFile_keychain]
    exact readKeychain_deleteKeychain s (account key) deletes
  have hfile : (s.delete key deletes removes).readFallback (account key) =
      if removes then none else s.readFallback (account key) := by
    rw [delete, readFallback_removeFile]
    cases deletes <;> rfl
  rw [Right, Clears, get_eq_none, hkeychain, hfile]
  cases deletes <;> cases removes <;> simp

theorem right_iff (s : KeyringStore) (call : Call) : Right s call ↔ Clears s call := by
  cases call with
  | get key => exact Iff.rfl
  | set key value fates => exact right_set_iff s key value fates
  | delete key deletes removes => exact right_delete_iff s key deletes removes

/-! Over a whole history: what a key reads is what the last call that changed it left. -/

structure LikeMap (s : KeyringStore) (calls : List Call) : Prop where
  set_ok : ∀ before key value fates between,
    before ++ .set key value fates :: between <+: calls →
    (∀ call ∈ between, call.changes ≠ some key) →
    ((run step s before).set key value fates).2 = .ok () → value ≠ "" →
      (run step s (before ++ .set key value fates :: between)).get key = some value
  set_error : ∀ before key value fates between,
    before ++ .set key value fates :: between <+: calls →
    (∀ call ∈ between, call.changes ≠ some key) →
    ((run step s before).set key value fates).2 ≠ .ok () →
      (run step s (before ++ .set key value fates :: between)).get key =
        (run step s before).get key
  deleted : ∀ before key deletes removes between,
    before ++ .delete key deletes removes :: between <+: calls →
    (∀ call ∈ between, call.changes ≠ some key) →
      (run step s (before ++ .delete key deletes removes :: between)).get key = none
  others : ∀ before call key, before ++ [call] <+: calls → call.changes ≠ some key →
    (run step s (before ++ [call])).get key = (run step s before).get key

theorem run_other (s : KeyringStore) {key : CredKey} (calls : List Call)
    (h : ∀ call ∈ calls, call.changes ≠ some key) : (run step s calls).get key = s.get key := by
  induction calls generalizing s with
  | nil => rfl
  | cons call calls ih =>
    have hrest := ih (s.step call) fun next hnext => h next (List.mem_cons_of_mem _ hnext)
    exact hrest.trans (step_other s (h call List.mem_cons_self))

theorem meets_at {s : KeyringStore} {before between calls : List Call} {call : Call}
    (h : Meets step Right s calls) (hbegins : before ++ call :: between <+: calls) :
    Right (run step s before) call := by
  obtain ⟨rest, rfl⟩ := hbegins
  induction before generalizing s with
  | nil => exact h.1
  | cons first before ih => exact ih h.2

theorem likeMap_of_meets {s : KeyringStore} {calls : List Call} (h : Meets step Right s calls) :
    LikeMap s calls where
  set_ok := by
    intro before key value fates between hbegins hbetween hok hsome
    rw [run_append, run_cons, run_other _ between hbetween]
    exact (meets_at h hbegins).1 hok hsome
  set_error := by
    intro before key value fates between hbegins hbetween herr
    rw [run_append, run_cons, run_other _ between hbetween]
    exact (meets_at h hbegins).2 herr
  deleted := by
    intro before key deletes removes between hbegins hbetween
    rw [run_append, run_cons, run_other _ between hbetween]
    exact meets_at h hbegins
  others := by
    intro before call key _ hother
    rw [run_append, run_cons]
    exact step_other _ hother

theorem LikeMap.right {s : KeyringStore} {call : Call} {calls : List Call}
    (h : LikeMap s (call :: calls)) : Right s call := by
  have hfirst : ([] : List Call) ++ call :: [] <+: call :: calls := ⟨calls, rfl⟩
  have hnone : ∀ key : CredKey, ∀ next ∈ ([] : List Call), next.changes ≠ some key :=
    fun _ _ hnext => (nomatch hnext)
  cases call with
  | get key => trivial
  | set key value fates =>
    exact ⟨h.set_ok [] key value fates [] hfirst (hnone key),
      h.set_error [] key value fates [] hfirst (hnone key)⟩
  | delete key deletes removes => exact h.deleted [] key deletes removes [] hfirst (hnone key)

theorem LikeMap.tail {s : KeyringStore} {call : Call} {calls : List Call}
    (h : LikeMap s (call :: calls)) : LikeMap (s.step call) calls := by
  have hlong : ∀ before, before <+: calls → call :: before <+: call :: calls :=
    fun before hbefore => (List.prefix_cons_inj call).mpr hbefore
  constructor
  · intro before key value fates between hbegins
    exact h.set_ok (call :: before) key value fates between (hlong _ hbegins)
  · intro before key value fates between hbegins
    exact h.set_error (call :: before) key value fates between (hlong _ hbegins)
  · intro before key deletes removes between hbegins
    exact h.deleted (call :: before) key deletes removes between (hlong _ hbegins)
  · intro before next key hbegins
    exact h.others (call :: before) next key (hlong _ hbegins)

theorem meets_of_likeMap {s : KeyringStore} {calls : List Call} (h : LikeMap s calls) :
    Meets step Right s calls := by
  induction calls generalizing s with
  | nil => trivial
  | cons call calls ih => exact ⟨h.right, ih h.tail⟩

/-- The two places behave like one map exactly as long as a place that has to be cleared is. -/
theorem like_one_map_iff (s : KeyringStore) (calls : List Call) :
    LikeMap s calls ↔ Meets step Clears s calls := by
  have hsame : Right = Clears := by
    funext state call
    exact propext (right_iff state call)
  rw [← hsame]
  exact ⟨meets_of_likeMap, likeMap_of_meets⟩

def awsToken : CredKey := (⟨"aws", by decide⟩, ⟨"token", by decide⟩)

def nothingKept : KeyringStore :=
  { keychain := fun _ => none, files := fun _ => none, fallbackDir := .ok "credentials" }

/-- A short key, and a longer one over it that the keychain refuses and will not make way for. -/
def shortThenLong : List Call :=
  [.set awsToken "short" ⟨.ok, .ok (), true, true⟩,
    .set awsToken "much longer" ⟨.tooLong, .ok (), false, true⟩]

theorem stale_key_shadows :
    (run step nothingKept shortThenLong).get awsToken = some "short" ∧
      ¬LikeMap nothingKept shortThenLong := by
  have hget : (run step nothingKept shortThenLong).get awsToken = some "short" := by
    decide +kernel
  refine ⟨hget, fun h => ?_⟩
  have hnew := h.set_ok [.set awsToken "short" ⟨.ok, .ok (), true, true⟩] awsToken "much longer"
    ⟨.tooLong, .ok (), false, true⟩ [] (List.prefix_refl _) (fun _ hcall => (nomatch hcall)) rfl
    (by decide)
  exact absurd (hget.symm.trans hnew) (by decide)

end KeyringStore
end JamStream.Client
