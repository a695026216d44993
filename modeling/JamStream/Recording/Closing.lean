import JamStream.Foundations.OrderedMap
import JamStream.Foundations.Runs
import JamStream.Recording.Recorder
import JamStream.Session.Plaintext

/-! What becomes of the objects a recorder opens. While a take holds an object nothing
has ended it; afterwards it was finished or aborted once, or else it was dropped by an
early return, which takes a failure before its track was there or behind its end. -/

namespace JamStream.Recording
open Protocol Engine Foundations Runs
open Std (ExtTreeMap)
variable {X : Encoding}

abbrev Log := List (SinkEvent × Option String)

def SinkEvent.object? : SinkEvent → Option ℕ
  | .opening _ => none
  | .write object _ _ | .spoilt object _ | .finish object | .abort object => some object

def SinkEvent.isEnd : SinkEvent → Bool
  | .finish _ | .abort _ => true
  | _ => false

/-- A failure the recorder answers by returning early, with an object in hand that no
track holds. -/
def isLoss : SinkEvent × Option String → Bool
  | (.write _ site _, some _) | (.spoilt _ site, _) => site ≠ .samples
  | _ => false

def Opened (log : Log) (object : ℕ) : Prop := ∃ name, log[object]? = some (.opening name, none)

def endings (log : Log) (object : ℕ) : ℕ :=
  log.countP fun e => e.1.isEnd && e.1.object? = some object

def losses (log : Log) (object : ℕ) : ℕ :=
  log.countP fun e => isLoss e && e.1.object? = some object

/-- The log accounts for every object, the live ones being in the take's hands. -/
structure Ledger (log : Log) (live : List ℕ) : Prop where
  known : ∀ e ∈ log, ∀ object, e.1.object? = some object → Opened log object
  nodup : live.Nodup
  opened : ∀ object ∈ live, Opened log object
  fresh : ∀ object ∈ live, endings log object + losses log object = 0
  settled : ∀ object, Opened log object → object ∉ live →
    endings log object + losses log object = 1

variable {log : Log} {live : List ℕ}

theorem Opened.append {object : ℕ} (h : Opened log object) (e : SinkEvent × Option String) :
    Opened (log ++ [e]) object := by
  obtain ⟨name, hname⟩ := h
  obtain ⟨hlt, -⟩ := List.getElem?_eq_some_iff.mp hname
  exact ⟨name, (List.getElem?_append_left hlt).trans hname⟩

theorem Opened.lt {object : ℕ} (h : Opened log object) : object < log.length := by
  obtain ⟨name, hname⟩ := h
  exact (List.getElem?_eq_some_iff.mp hname).1

theorem opened_append {object : ℕ} {e : SinkEvent × Option String} (h : Opened (log ++ [e]) object) :
    Opened log object ∨ object = log.length ∧ ∃ name, e = (.opening name, none) := by
  obtain ⟨name, hname⟩ := h
  rcases Nat.lt_or_ge object log.length with hlt | hge
  · exact .inl ⟨name, (List.getElem?_append_left hlt).symm.trans hname⟩
  · rw [List.getElem?_append_right hge] at hname
    obtain ⟨hzero, he⟩ := List.getElem?_eq_some_iff.mp hname
    have hsub : object - log.length = 0 := Nat.lt_one_iff.mp hzero
    refine .inr ⟨by omega, name, ?_⟩
    simpa [hsub] using he

theorem settled_append (log : Log) (e : SinkEvent × Option String) (object : ℕ) :
    endings (log ++ [e]) object + losses (log ++ [e]) object =
      endings log object + losses log object +
        if (e.1.isEnd || isLoss e) && e.1.object? = some object then 1 else 0 := by
  unfold endings losses
  rw [List.countP_append, List.countP_append, List.countP_singleton, List.countP_singleton]
  obtain ⟨event, err⟩ := e
  have hone : event.isEnd = true → isLoss (event, err) = false := by
    cases event <;> simp [SinkEvent.isEnd, isLoss]
  cases hend : event.isEnd <;> cases hloss : isLoss (event, err) <;>
    simp_all <;> omega

theorem Ledger.perm {live' : List ℕ} (h : Ledger log live) (hperm : live.Perm live') :
    Ledger log live' where
  known := h.known
  nodup := hperm.nodup_iff.mp h.nodup
  opened object hmem := h.opened object (hperm.mem_iff.mpr hmem)
  fresh object hmem := h.fresh object (hperm.mem_iff.mpr hmem)
  settled object hopened hmem := h.settled object hopened fun hin => hmem (hperm.mem_iff.mp hin)

theorem Ledger.append {e : SinkEvent × Option String} (h : Ledger log live)
    (hobject : ∀ object, e.1.object? = some object → object ∈ live)
    (hsettles : (e.1.isEnd || isLoss e) = false) (hnone : ∀ name, e ≠ (.opening name, none)) :
    Ledger (log ++ [e]) live := by
  have hsame : ∀ object, endings (log ++ [e]) object + losses (log ++ [e]) object =
      endings log object + losses log object := by
    intro object
    rw [settled_append, hsettles]
    simp
  refine ⟨fun f hf object hobj => ?_, h.nodup, fun object hmem => (h.opened object hmem).append e,
    fun object hmem => (hsame object).trans (h.fresh object hmem), fun object hopened hmem => ?_⟩
  · rcases List.mem_append.mp hf with hf | hf
    · exact (h.known f hf object hobj).append e
    · rw [List.mem_singleton.mp hf] at hobj
      exact (h.opened object (hobject object hobj)).append e
  · rcases opened_append hopened with hopened | ⟨-, name, he⟩
    · exact (hsame object).trans (h.settled object hopened hmem)
    · exact absurd he (hnone name)

theorem Ledger.opening (h : Ledger log live) (name : String) :
    Ledger (log ++ [(.opening name, none)]) (log.length :: live) := by
  have hsame : ∀ object, endings (log ++ [(.opening name, none)]) object +
      losses (log ++ [(.opening name, none)]) object = endings log object + losses log object := by
    intro object
    rw [settled_append]
    simp [SinkEvent.isEnd, isLoss]
  have hnew : Opened (log ++ [(.opening name, none)]) log.length :=
    ⟨name, List.getElem?_concat_length⟩
  refine ⟨fun f hf object hobj => ?_, ?_, fun object hmem => ?_, fun object hmem => ?_,
    fun object hopened hmem => ?_⟩
  · rcases List.mem_append.mp hf with hf | hf
    · exact (h.known f hf object hobj).append _
    · rw [List.mem_singleton.mp hf] at hobj
      exact absurd hobj (Option.some_ne_none object).symm
  · exact List.nodup_cons.mpr ⟨fun hmem => lt_irrefl _ (h.opened _ hmem).lt, h.nodup⟩
  · rcases List.mem_cons.mp hmem with rfl | hmem
    · exact hnew
    · exact (h.opened object hmem).append _
  · rw [hsame]
    rcases List.mem_cons.mp hmem with rfl | hmem
    · -- nothing in the log is about an object yet to come
      have hnone : ∀ e ∈ log, e.1.object? ≠ some log.length := fun e he hobj =>
        lt_irrefl _ (h.known e he _ hobj).lt
      unfold endings losses
      rw [List.countP_eq_zero.mpr, List.countP_eq_zero.mpr]
      · intro e he
        simp [hnone e he]
      · intro e he
        simp [hnone e he]
    · exact h.fresh object hmem
  · rw [hsame]
    rcases opened_append hopened with hopened | ⟨rfl, -⟩
    · exact h.settled object hopened fun hin => hmem (List.mem_cons_of_mem _ hin)
    · exact absurd (List.mem_cons_self ..) hmem

theorem Ledger.settle {object : ℕ} {e : SinkEvent × Option String}
    (h : Ledger log (object :: live)) (hobject : e.1.object? = some object)
    (hsettles : (e.1.isEnd || isLoss e) = true) : Ledger (log ++ [e]) live := by
  have hcount : ∀ object', endings (log ++ [e]) object' + losses (log ++ [e]) object' =
      endings log object' + losses log object' + if object = object' then 1 else 0 := by
    intro object'
    rw [settled_append, hsettles, hobject]
    simp
  obtain ⟨hnotin, hnodup⟩ := List.nodup_cons.mp h.nodup
  refine ⟨fun f hf object' hobj => ?_, hnodup,
    fun object' hmem => (h.opened object' (List.mem_cons_of_mem _ hmem)).append e,
    fun object' hmem => ?_, fun object' hopened hmem => ?_⟩
  · rcases List.mem_append.mp hf with hf | hf
    · exact (h.known f hf object' hobj).append e
    · rw [List.mem_singleton.mp hf, hobject] at hobj
      obtain rfl := Option.some.inj hobj
      exact (h.opened object (List.mem_cons_self ..)).append e
  · have hne : object ≠ object' := fun heq => hnotin (heq ▸ hmem)
    rw [hcount, if_neg hne]
    exact h.fresh object' (List.mem_cons_of_mem _ hmem)
  · rw [hcount]
    rcases opened_append hopened with hopened | ⟨-, name, rfl⟩
    · by_cases heq : object = object'
      · subst heq
        rw [if_pos rfl, h.fresh object (List.mem_cons_self ..)]
      · rw [if_neg heq]
        refine h.settled object' hopened fun hin => ?_
        exact (List.mem_cons.mp hin).elim (fun h => heq h.symm) hmem
    · exact absurd hobject (Option.some_ne_none object).symm

def Leaves {α : Type} (r : Sink × Except String α) (ok : α → List ℕ) (error : List ℕ) : Prop :=
  match r.2 with
  | .ok a => Ledger r.1.log (ok a)
  | .error _ => Ledger r.1.log error

theorem Ledger.put {s : Sink} {object : ℕ} (h : Ledger s.log (object :: live)) (site : Site)
    (encoded : Except String Bytes) :
    Leaves (s.put object site encoded) (fun _ => object :: live)
      (if site = .samples then object :: live else live) := by
  have hlive : ∀ e : SinkEvent × Option String, e.1.object? = some object →
      ∀ object', e.1.object? = some object' → object' ∈ object :: live := by
    intro e he object' he'
    rw [Option.some.inj (he'.symm.trans he)]
    exact List.mem_cons_self ..
  -- a failure keeps the object live among the samples, and loses it elsewhere
  have hfailed : ∀ e : SinkEvent × Option String, e.1.object? = some object →
      e.1.isEnd = false → isLoss e = decide (site ≠ .samples) →
      (∀ name, e ≠ (.opening name, none)) →
      Ledger (s.log ++ [e]) (if site = .samples then object :: live else live) := by
    intro e he hend hloss hnone
    split_ifs with hsite
    · exact h.append (hlive e he) (by simp [hend, hloss, hsite]) hnone
    · exact h.settle he (by simp [hloss, hsite])
  cases encoded with
  | error err => exact hfailed _ rfl rfl rfl fun _ => by simp
  | ok chunk =>
    simp only [Sink.put, Sink.call, Sink.record, Leaves]
    cases s.fails s.log.length with
    | none => exact h.append (hlive _ rfl) rfl fun _ => by simp
    | some err => exact hfailed _ rfl rfl rfl fun _ => by simp

theorem Ledger.putAny {s : Sink} {object : ℕ} (h : Ledger s.log (object :: live)) (site : Site)
    (encoded : Except String Bytes) :
    Leaves (s.putAny object site encoded) (fun _ => object :: live)
      (if site = .samples then object :: live else live) := by
  unfold Sink.putAny
  split
  · exact h
  · exact h.put site encoded

theorem Ledger.callOpening {s : Sink} (h : Ledger s.log live) (name : String) :
    Leaves (s.call (.opening name)) (fun _ => s.log.length :: live) live := by
  simp only [Sink.call, Sink.record, Leaves]
  cases s.fails s.log.length with
  | none => exact h.opening name
  | some err =>
    exact h.append (fun _ hobj => absurd hobj (Option.some_ne_none _).symm) rfl fun _ => by simp

namespace Track

theorem openTrack_ledger (X : Encoding) {s : Sink} (h : Ledger s.log live) (file : String) :
    Leaves (openTrack X s file) (fun t => t.object :: live) live := by
  have hopened := h.callOpening file
  unfold openTrack
  match hcall : s.call (.opening file) with
  | (s', .error e) =>
    rw [hcall] at hopened
    exact hopened
  | (s', .ok ()) =>
    rw [hcall] at hopened
    have hheader := Ledger.put hopened .header (FlacEncoder.header X)
    simp only
    split
    · rename_i heq
      rwa [heq] at hheader
    · rename_i heq
      rwa [heq] at hheader

theorem openWithHead_ledger (X : Encoding) {s : Sink} (h : Ledger s.log live) (file : String)
    (head : Bytes) (frames pending : ℕ) :
    Leaves (openWithHead X s file head frames pending) (fun t => t.object :: live) live := by
  have hopened := h.callOpening file
  unfold openWithHead
  match hcall : s.call (.opening file) with
  | (s', .error e) =>
    rw [hcall] at hopened
    exact hopened
  | (s', .ok ()) =>
    rw [hcall] at hopened
    have hheader := Ledger.put hopened .header (FlacEncoder.header X)
    simp only
    split
    · rename_i heq
      rwa [heq] at hheader
    · rename_i heq
      rw [heq] at hheader
      have hhead := Ledger.put hheader .head (.ok head)
      split
      · rename_i heq
        rwa [heq] at hhead
      · rename_i heq
        rwa [heq] at hhead

theorem push_object (t : Track) (s : Sink) (site : Site) (pcm : Stereo X.toAudio) :
    (t.push s site pcm).2.1.object = t.object := rfl

theorem push_ledger {t : Track} {s : Sink} (h : Ledger s.log (t.object :: live)) (site : Site)
    (pcm : Stereo X.toAudio) :
    Leaves ((t.push s site pcm).1, (t.push s site pcm).2.2) (fun _ => t.object :: live)
      (if site = .samples then t.object :: live else live) :=
  h.putAny site (t.enc.push X pcm).2

theorem finish_ledger {t : Track} {s : Sink} (h : Ledger s.log (t.object :: live)) :
    Ledger (t.finish X s).1.log live := by
  have htail := h.putAny .tail (t.enc.finish X)
  unfold finish
  split
  · rename_i heq
    rwa [heq] at htail
  · rename_i heq
    rw [heq] at htail
    exact Ledger.settle htail rfl rfl

theorem abort_ledger {t : Track} {s : Sink} (h : Ledger s.log (t.object :: live)) :
    Ledger (t.abort s).log live := h.settle rfl rfl

end Track

namespace Take

def objects (t : Take) : List ℕ := t.tracks.map Track.object

theorem objects_eq (t : Take) :
    t.objects = t.mix.object :: ((t.stems.getD ∅).toList.map fun e => e.2.object) := by
  unfold objects tracks
  rw [List.map_cons, List.map_map]
  rfl

theorem objects_setStem {t : Take} {id : MemberId} {track track' : Track}
    (h : (t.stems.getD ∅)[id]? = some track) (hobject : track'.object = track.object) :
    (t.setStem id track').objects = t.objects := by
  rw [objects_eq, objects_eq]
  unfold setStem
  cases hstems : t.stems with
  | none => rfl
  | some stems =>
    rw [hstems] at h
    exact congrArg _ (OrderedMap.toList_insert_map Track.object h hobject)

theorem objects_newStem {t : Take} {id : MemberId} {track : Track} (hstems : t.stems.isSome)
    (h : (t.stems.getD ∅)[id]? = none) :
    (t.setStem id track).objects.Perm (track.object :: t.objects) := by
  obtain ⟨stems, hstems⟩ := Option.isSome_iff_exists.mp hstems
  rw [hstems] at h
  rw [objects_eq, objects_eq]
  simp only [setStem, hstems, Option.map_some, Option.getD_some]
  have hperm := (OrderedMap.toList_insert_perm h track).map fun e => e.2.object
  exact (hperm.cons _).trans (List.Perm.swap _ _ _)

theorem getElem?_setStem {t : Take} {id id' : MemberId} {track : Track} (hstems : t.stems.isSome) :
    ((t.setStem id track).stems.getD ∅)[id']? =
      if id = id' then some track else (t.stems.getD ∅)[id']? := by
  obtain ⟨stems, hstems⟩ := Option.isSome_iff_exists.mp hstems
  simp only [setStem, hstems, Option.map_some, Option.getD_some]
  exact OrderedMap.getElem?_insert _ _ _ _

structure Holding (s : Sink) (t : Take) : Prop where
  stems : t.stems.isSome
  ledger : Ledger s.log t.objects

theorem Holding.moved {s : Sink} {t : Take} {id : MemberId} {track track' : Track}
    (h : Holding s t) {s' : Sink} (hs' : Ledger s'.log t.objects)
    (hin : (t.stems.getD ∅)[id]? = some track) (hobject : track'.object = track.object) :
    Holding s' (t.setStem id track') where
  stems := by
    unfold setStem
    rw [Option.isSome_map]
    exact h.stems
  ledger := by rwa [objects_setStem hin hobject]

theorem objects_perm {t : Take} {id : MemberId} {track : Track}
    (hin : (t.stems.getD ∅)[id]? = some track) :
    ∃ rest, t.objects.Perm (track.object :: rest) := by
  have hmem : track.object ∈ t.objects := by
    rw [objects_eq]
    refine List.mem_cons_of_mem _ (List.mem_map.mpr ⟨(id, track), ?_, rfl⟩)
    exact ExtTreeMap.mem_toList_iff_getElem?_eq_some.mpr hin
  exact ⟨_, List.perm_cons_erase hmem⟩

theorem Holding.push {s : Sink} {t : Take} {id : MemberId} {track : Track} (h : Holding s t)
    (hin : (t.stems.getD ∅)[id]? = some track) (pcm : Stereo X.toAudio) :
    Holding (track.push s .samples pcm).1 (t.setStem id (track.push s .samples pcm).2.1) := by
  obtain ⟨rest, hperm⟩ := objects_perm hin
  refine h.moved ?_ hin (track.push_object s .samples pcm)
  have hpushed := Track.push_ledger (h.ledger.perm hperm) .samples pcm
  unfold Leaves at hpushed
  split at hpushed <;> exact hpushed.perm hperm.symm

theorem backfill_ledger (X : Encoding) (n : ℕ) {s : Sink} {track : Track}
    (h : Ledger s.log (track.object :: live)) :
    Leaves (backfill X n s track) (fun t => t.object :: live) live := by
  induction n generalizing s track with
  | zero => exact h
  | succ n ih =>
    have hpushed := Track.push_ledger h .backfill (silentTick X)
    have hobject := track.push_object s .backfill (silentTick X)
    unfold backfill
    split
    · rename_i heq
      rwa [heq] at hpushed
    · rename_i heq
      rw [heq] at hpushed hobject
      refine ih ?_
      rw [hobject]
      exact hpushed

theorem openStemTrack_ledger (X : Encoding) {t : Take} {s : Sink} (h : Ledger s.log live)
    (file : String) :
    Leaves (t.openStemTrack X s file) (fun track => track.object :: live) live := by
  unfold openStemTrack
  split
  · exact Track.openWithHead_ledger X h _ _ _ _
  · have hplain := Track.openTrack_ledger X h file
    split
    · rename_i heq
      rwa [heq] at hplain
    · rename_i heq
      rw [heq] at hplain
      exact backfill_ledger X t.ticks hplain

/-- A take that holds a track for a stem it was asked for, when it could be had. -/
def Found (r : Sink × Take × Except String Track) (id : MemberId) : Prop :=
  Holding r.1 r.2.1 ∧ ∀ track, r.2.2 = .ok track → (r.2.1.stems.getD ∅)[id]? = some track

theorem openStem_found (X : Encoding) {t : Take} {s : Sink} {id : MemberId} (h : Holding s t)
    (hnew : (t.stems.getD ∅)[id]? = none) : Found (t.openStem X s id) id := by
  unfold openStem
  have hopened := openStemTrack_ledger X (t := t) h.ledger
    (objectName t.base (stemName X t.roster t.namesUsed id))
  simp only
  generalize t.openStemTrack X s (objectName t.base (stemName X t.roster t.namesUsed id)) = opened
    at hopened ⊢
  match opened with
  | (s', .error e) => exact ⟨⟨h.stems, hopened⟩, fun track htrack => by simp at htrack⟩
  | (s', .ok track) =>
    generalize t.namesUsed ++ [stemName X t.roster t.namesUsed id] = namesUsed
    have hnamed : Holding s { t with namesUsed } := ⟨h.stems, h.ledger⟩
    refine ⟨⟨?_, ?_⟩, fun track' htrack' => ?_⟩
    · show (t.stems.map _).isSome
      rw [Option.isSome_map]
      exact h.stems
    · exact Ledger.perm hopened (objects_newStem hnamed.stems hnew).symm
    · obtain rfl := Except.ok.inj htrack'
      rw [getElem?_setStem hnamed.stems]
      exact if_pos rfl

theorem stemFor_found (X : Encoding) {t : Take} {s : Sink} (h : Holding s t) (id : MemberId) :
    Found (t.stemFor X s id) id := by
  unfold stemFor
  split
  · rename_i track hin
    exact ⟨h, fun track' htrack => Except.ok.inj htrack ▸ hin⟩
  · rename_i hnew
    exact openStem_found X h hnew

theorem feedStems_holding (stems : List (Stem X)) {t : Take} {s : Sink} (h : Holding s t) :
    Holding (feedStems stems t s).1 (feedStems stems t s).2.1 := by
  induction stems generalizing t s with
  | nil => exact h
  | cons stem rest ih =>
    have hfound := stemFor_found X h stem.id
    unfold feedStems
    split
    · rename_i heq
      rw [heq] at hfound
      exact hfound.1
    · rename_i s' t' track heq
      rw [heq] at hfound
      have hpushed := hfound.1.push (hfound.2 track rfl) (mixInto [(stem.id, stem.pcm)]
        (fun _ => stem.fader) none (tickStereoSamples / channels))
      simp only
      split
      · rename_i heq'
        rwa [heq'] at hpushed
      · rename_i heq'
        rw [heq'] at hpushed
        exact ih hpushed

theorem feedAbsent_holding (X : Encoding) (absent : List (MemberId × Track)) {t : Take} {s : Sink}
    (h : Holding s t) (hnodup : (absent.map Prod.fst).Nodup)
    (hin : ∀ e ∈ absent, (t.stems.getD ∅)[e.1]? = some e.2) :
    Holding (feedAbsent X absent t s).1 (feedAbsent X absent t s).2.1 := by
  induction absent generalizing t s with
  | nil => exact h
  | cons e rest ih =>
    obtain ⟨id, track⟩ := e
    obtain ⟨hnotin, hnodup⟩ := List.nodup_cons.mp hnodup
    have hpushed := h.push (hin _ (List.mem_cons_self ..)) (silentTick X)
    unfold feedAbsent
    split
    · rename_i heq
      rwa [heq] at hpushed
    · rename_i heq
      rw [heq] at hpushed
      refine ih hpushed hnodup fun e he => ?_
      have hne : id ≠ e.1 := fun hid => hnotin (List.mem_map.mpr ⟨e, he, hid.symm⟩)
      rw [getElem?_setStem h.stems, if_neg hne]
      exact hin e (List.mem_cons_of_mem _ he)

theorem objects_setMix {t : Take} {mix : Track} (h : mix.object = t.mix.object) :
    ({ t with mix } : Take).objects = t.objects := by
  rw [objects_eq, objects_eq]
  exact congrArg (fun object => object :: _) h

theorem feedAllStems_ledger {t : Take} {s : Sink} (h : Ledger s.log t.objects)
    (payload : RecordPayload X) :
    Ledger (t.feedAllStems s payload).1.log (t.feedAllStems s payload).2.1.objects := by
  unfold feedAllStems
  split
  · exact h
  · rename_i stems hstems
    have hheld : Holding s t := ⟨Option.isSome_iff_exists.mpr ⟨stems, hstems⟩, h⟩
    have hfed := feedStems_holding payload.stems hheld
    split
    · rename_i heq
      rw [heq] at hfed
      exact hfed.ledger
    · rename_i heq
      rw [heq] at hfed
      refine (feedAbsent_holding X _ hfed ?_ fun e he => ?_).ledger
      · refine (List.filter_sublist.map _).nodup ?_
        rw [ExtTreeMap.map_fst_toList_eq_keys]
        exact OrderedMap.nodup_keys _
      · exact ExtTreeMap.mem_toList_iff_getElem?_eq_some.mp (List.mem_of_mem_filter he)

theorem feed_ledger {t : Take} {s : Sink} (h : Ledger s.log t.objects) (payload : RecordPayload X) :
    Ledger (t.feed s payload).1.log (t.feed s payload).2.1.objects := by
  have hmix : Ledger (t.mix.push s .samples payload.mix).1.log t.objects := by
    rw [objects_eq] at h ⊢
    have hpushed := Track.push_ledger h .samples payload.mix
    unfold Leaves at hpushed
    split at hpushed <;> exact hpushed
  have hobject := t.mix.push_object s .samples payload.mix
  unfold feed
  split
  · rename_i heq
    rw [heq] at hmix hobject
    simp only
    rwa [objects_setMix hobject]
  · rename_i heq
    rw [heq] at hmix hobject
    rw [← objects_setMix hobject] at hmix
    have hfed := feedAllStems_ledger hmix payload
    split
    · rename_i heq'
      rwa [heq'] at hfed
    · rename_i heq'
      rw [heq'] at hfed
      simp only
      split <;> exact hfed

end Take

namespace Recorder

def held (r : Recorder) : List ℕ := (r.take.map Take.objects).getD []

def Accounted (r : Recorder) : Prop := Ledger r.sink.log r.held

theorem Accounted.start (X : Encoding) {r : Recorder} (h : r.Accounted) (unixSecs : UInt64)
    (stems : Option (List (MemberId × String))) : (r.start X unixSecs stems).Accounted := by
  unfold Recorder.start
  split
  · exact h
  · rename_i hnone
    have hfree : Ledger r.sink.log [] := by
      unfold Accounted held at h
      rwa [hnone] at h
    have hopened := Track.openTrack_ledger X hfree (objectName (takeBase unixSecs) "mix")
    simp only
    split
    · rename_i heq
      rw [heq] at hopened
      unfold Accounted held
      simp only [hnone]
      exact hopened
    · rename_i heq
      rw [heq] at hopened
      unfold Accounted held
      cases stems with
      | none => exact hopened
      | some roster =>
        show Ledger _ (Take.objects _)
        rw [Take.objects_eq]
        exact hopened

theorem abort_all (tracks : List Track) {s : Sink} (h : Ledger s.log (tracks.map Track.object)) :
    Ledger (tracks.foldl (fun s track => track.abort s) s).log [] := by
  induction tracks generalizing s with
  | nil => exact h
  | cons track rest ih => exact ih (Track.abort_ledger h)

theorem Accounted.fail {r : Recorder} (h : r.Accounted) (reason : String) :
    (r.fail reason).Accounted := by
  unfold Recorder.fail
  unfold Accounted held at h
  split
  · rename_i hnone
    unfold Accounted held
    rw [hnone] at h ⊢
    exact h
  · rename_i t htake
    rw [htake] at h
    exact abort_all t.tracks h

theorem Accounted.tick {r : Recorder} (h : r.Accounted) (payload : RecordPayload X) :
    (r.tick payload).Accounted := by
  unfold Recorder.tick
  split
  · exact h
  · rename_i t htake
    unfold Accounted held at h
    rw [htake] at h
    have hfed := Take.feed_ledger h payload
    split
    · rename_i heq
      rw [heq] at hfed
      exact hfed
    · rename_i heq
      rw [heq] at hfed
      refine Accounted.fail ?_ _
      exact hfed

theorem finishAll_ledger (X : Encoding) (tracks : List Track) {s : Sink}
    (h : Ledger s.log (tracks.map Track.object)) : Ledger (finishAll X tracks s).1.log [] := by
  induction tracks generalizing s with
  | nil => exact h
  | cons track rest ih => exact ih (Track.finish_ledger h)

theorem stop_ledger (X : Encoding) {r : Recorder} (h : r.Accounted) :
    Ledger (r.stop X).sink.log [] ∧ (r.stop X).take = none := by
  unfold Recorder.stop
  unfold Accounted held at h
  split
  · rename_i hnone
    rw [hnone] at h
    exact ⟨h, hnone⟩
  · rename_i t htake
    rw [htake] at h
    exact ⟨finishAll_ledger X t.tracks h, rfl⟩

end Recorder

inductive Command (X : Encoding)
  | start (unixSecs : UInt64) (stems : Option (List (MemberId × String)))
  | tick (payload : RecordPayload X)
  | stop

namespace Recorder

def step (r : Recorder) : Command X → Recorder
  | .start unixSecs stems => r.start X unixSecs stems
  | .tick payload => r.tick payload
  | .stop => r.stop X

theorem Accounted.step {r : Recorder} (h : r.Accounted) (c : Command X) : (r.step c).Accounted := by
  cases c with
  | start unixSecs stems => exact h.start X unixSecs stems
  | tick payload => exact h.tick payload
  | stop =>
    obtain ⟨hledger, hnone⟩ := stop_ledger X h
    unfold Accounted held
    rw [show (r.step .stop : Recorder).take = none from hnone]
    exact hledger

def onSink (fails : ℕ → Option String) (uploads : Bool) : Recorder :=
  .new { fails, uploads, log := [] }

theorem onSink_accounted (fails : ℕ → Option String) (uploads : Bool) :
    (onSink fails uploads).Accounted where
  known _ he := absurd he List.not_mem_nil
  nodup := List.nodup_nil
  opened _ hmem := absurd hmem List.not_mem_nil
  fresh _ hmem := absurd hmem List.not_mem_nil
  settled object hopened _ := absurd hopened.lt (Nat.not_lt_zero object)

/-- When a recorder is done, each object it opened was finished or aborted once exactly
if none of them met a failure outside its samples. -/
theorem closed_once (X : Encoding) (fails : ℕ → Option String) (uploads : Bool)
    (commands : List (Command X)) :
    (∀ object, Opened ((run step (onSink fails uploads) commands).stop X).sink.log object →
      endings ((run step (onSink fails uploads) commands).stop X).sink.log object = 1) ↔
    ∀ e ∈ ((run step (onSink fails uploads) commands).stop X).sink.log, isLoss e = false := by
  have hrun : (run step (onSink fails uploads) commands).Accounted :=
    run_invariant (P := Accounted) (fun _ c h => h.step c) (onSink_accounted fails uploads) commands
  have hledger := (stop_ledger X hrun).1
  generalize ((run step (onSink fails uploads) commands).stop X).sink.log = log at hledger ⊢
  constructor
  · intro hclosed e he
    by_contra hloss
    rw [Bool.not_eq_false] at hloss
    obtain ⟨object, hobject⟩ : ∃ object, e.1.object? = some object := by
      obtain ⟨event, err⟩ := e
      cases event <;> simp_all [isLoss, SinkEvent.object?]
    have hopened := hledger.known e he object hobject
    have hsettled := hledger.settled object hopened List.not_mem_nil
    have hlost : 0 < losses log object := by
      refine List.countP_pos_iff.mpr ⟨e, he, ?_⟩
      rw [hloss, hobject]
      simp
    have hended := hclosed object hopened
    omega
  · intro hclean object hopened
    have hsettled := hledger.settled object hopened List.not_mem_nil
    have hnone : losses log object = 0 := by
      refine List.countP_eq_zero.mpr fun e he => ?_
      rw [hclean e he]
      exact Bool.false_ne_true
    omega

/-- Sound without samples worth hearing, and frames of a byte. -/
def mute : Encoding where
  toAudio := Session.plaintext.toAudio
  toI16 _ := 0
  streamInfo := .ok []
  encodeBlock _ _ := .ok [0]
  isAlphanumeric c := c.isAlphanum

/-- The disk fills up between an object's opening and its header. -/
theorem closed_once_full :
    ¬∀ object, Opened ((run (step (X := mute))
        (onSink (fun n => if n = 1 then some "disk full" else none) false)
        [.start 0 none]).stop mute).sink.log object →
      endings ((run (step (X := mute))
        (onSink (fun n => if n = 1 then some "disk full" else none) false)
        [.start 0 none]).stop mute).sink.log object = 1 := by
  intro h
  have hopened : Opened ((run (step (X := mute))
      (onSink (fun n => if n = 1 then some "disk full" else none) false)
      [.start 0 none]).stop mute).sink.log 0 := ⟨"jamstream-1970-01-01-0000-mix.flac", by decide +kernel⟩
  exact absurd (h 0 hopened) (by decide +kernel)

end Recorder
end JamStream.Recording
