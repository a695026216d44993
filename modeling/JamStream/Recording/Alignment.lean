import JamStream.Recording.Encoded
import JamStream.Recording.TakeNames

/-! Every track of a take against the ticks the take was fed. A stem opened late starts with
a copy of the silent head, and from then on it is the stream of an encoder that was fed
silence from the start. -/

namespace JamStream.Recording
open Protocol Engine Foundations Runs
open Std (ExtTreeMap)
variable {X : Encoding}

def chunk (object : ℕ) : SinkEvent × Option String → Bytes
  | (.write object' _ bytes, none) => if object' = object then bytes else []
  | _ => []

def written (log : Log) (object : ℕ) : Bytes := log.flatMap (chunk object)

theorem written_append (log : Log) (e : SinkEvent × Option String) (object : ℕ) :
    written (log ++ [e]) object = written log object ++ chunk object e := by
  rw [written, List.flatMap_append, List.flatMap_singleton]
  rfl

theorem chunk_other {e : SinkEvent × Option String} {object : ℕ}
    (h : e.1.object? ≠ some object) : chunk object e = [] := by
  obtain ⟨event, err⟩ := e
  cases event <;> cases err <;> simp_all [chunk, SinkEvent.object?]

theorem Ledger.written_fresh {log : Log} {live : List ℕ} (h : Ledger log live) :
    written log log.length = [] := by
  refine List.flatMap_eq_nil_iff.mpr fun e he => chunk_other fun hobject => ?_
  exact absurd (h.known e he _ hobject).lt (lt_irrefl _)

/-- Bytes for one object, and nothing for the others. -/
def Writes (object : ℕ) (bytes : Bytes) (s s' : Sink) : Prop :=
  ∀ o, written s'.log o = written s.log o ++ if o = object then bytes else []

theorem Writes.trans {object : ℕ} {bytes bytes' : Bytes} {s s' s'' : Sink}
    (h : Writes object bytes s s') (h' : Writes object bytes' s' s'') :
    Writes object (bytes ++ bytes') s s'' := by
  intro o
  rw [h' o, h o, List.append_assoc]
  split_ifs <;> rfl

theorem Writes.own {object : ℕ} {bytes : Bytes} {s s' : Sink} (h : Writes object bytes s s') :
    written s'.log object = written s.log object ++ bytes := by
  rw [h object, if_pos rfl]

theorem Writes.other {object o : ℕ} {bytes : Bytes} {s s' : Sink} (h : Writes object bytes s s')
    (ho : o ≠ object) : written s'.log o = written s.log o := by
  rw [h o, if_neg ho, List.append_nil]

theorem call_writes {s s' : Sink} {event : SinkEvent} (h : s.call event = (s', .ok ()))
    (o : ℕ) : written s'.log o = written s.log o ++ chunk o (event, none) := by
  rw [Recorder.call_ok h, written_append]

theorem opening_writes {s s' : Sink} {file : String} (h : s.call (.opening file) = (s', .ok ()))
    (object : ℕ) : Writes object [] s s' := by
  intro o
  rw [call_writes h o]
  split_ifs <;> rfl

theorem put_writes {s s' : Sink} {object : ℕ} {site : Site} {encoded : Except String Bytes}
    (h : s.put object site encoded = (s', .ok ())) :
    ∃ bytes, encoded = .ok bytes ∧ Writes object bytes s s' := by
  cases encoded with
  | error e => exact absurd (congrArg Prod.snd h) (by simp [Sink.put])
  | ok bytes =>
    refine ⟨bytes, rfl, fun o => ?_⟩
    rw [call_writes h o, chunk]
    simp only [eq_comm]

theorem putAny_writes {s s' : Sink} {object : ℕ} {site : Site} {encoded : Except String Bytes}
    (h : s.putAny object site encoded = (s', .ok ())) :
    ∃ bytes, encoded = .ok bytes ∧ Writes object bytes s s' := by
  unfold Sink.putAny at h
  split at h
  · obtain rfl := (Prod.mk.inj h).1
    refine ⟨[], rfl, fun o => ?_⟩
    split_ifs <;> rw [List.append_nil]
  · exact put_writes h

/-- A track and its object behind so many samples. -/
def Carries (X : Encoding) (log : Log) (track : Track) (xs : List ℤ) : Prop :=
  ∃ header out, FlacEncoder.header X = .ok header ∧ Fed X xs track.enc out ∧
    written log track.object = header ++ out

theorem Carries.frame {log log' : Log} {track : Track} {xs : List ℤ}
    (h : Carries X log track xs)
    (hsame : written log' track.object = written log track.object) :
    Carries X log' track xs := by
  obtain ⟨header, out, hheader, hfed, hwritten⟩ := h
  exact ⟨header, out, hheader, hfed, hsame.trans hwritten⟩

namespace Track

theorem openTrack_carries {s s' : Sink} {file : String} {track : Track}
    (hfresh : written s.log s.log.length = [])
    (h : openTrack X s file = (s', .ok track)) :
    Carries X s'.log track [] ∧ ∀ o ≠ s.log.length, written s'.log o = written s.log o := by
  unfold openTrack at h
  rcases hcall : s.call (.opening file) with ⟨s₁, opened⟩
  rw [hcall] at h
  cases opened with
  | error e => exact absurd (congrArg Prod.snd h) (by simp)
  | ok u =>
    have hopening := opening_writes hcall s.log.length
    simp only at h
    rcases hput : s₁.put s.log.length .header (FlacEncoder.header X) with ⟨s₂, result⟩
    rw [hput] at h
    cases result with
    | error e => exact absurd (congrArg Prod.snd h) (by simp)
    | ok u =>
      obtain ⟨header, hheader, hwrites⟩ := put_writes hput
      obtain ⟨rfl, htrack⟩ := Prod.mk.inj h
      obtain rfl := Except.ok.inj htrack
      have hall := hopening.trans hwrites
      refine ⟨⟨header, [], hheader, fed_new, ?_⟩, fun o ho => hall.other ho⟩
      rw [hall.own, hfresh]
      simp

theorem openWithHead_carries {s s' : Sink} {file : String} {track : Track} {xs : List ℤ}
    {head : Bytes} {frames pending : ℕ} (hfresh : written s.log s.log.length = [])
    (hfed : Fed X xs (.resumeSilent frames pending) head)
    (h : openWithHead X s file head frames pending = (s', .ok track)) :
    Carries X s'.log track xs ∧ ∀ o ≠ s.log.length, written s'.log o = written s.log o := by
  unfold openWithHead at h
  rcases hcall : s.call (.opening file) with ⟨s₁, opened⟩
  rw [hcall] at h
  cases opened with
  | error e => exact absurd (congrArg Prod.snd h) (by simp)
  | ok u =>
    have hopening := opening_writes hcall s.log.length
    simp only at h
    rcases hput : s₁.put s.log.length .header (FlacEncoder.header X) with ⟨s₂, result⟩
    rw [hput] at h
    cases result with
    | error e => exact absurd (congrArg Prod.snd h) (by simp)
    | ok u =>
      obtain ⟨header, hheader, hwrites⟩ := put_writes hput
      simp only at h
      rcases hcopy : s₂.put s.log.length .head (.ok head) with ⟨s₃, result⟩
      rw [hcopy] at h
      cases result with
      | error e => exact absurd (congrArg Prod.snd h) (by simp)
      | ok u =>
        obtain ⟨bytes, hbytes, hcopied⟩ := put_writes hcopy
        obtain rfl := Except.ok.inj hbytes
        obtain ⟨rfl, htrack⟩ := Prod.mk.inj h
        obtain rfl := Except.ok.inj htrack
        have hall := (hopening.trans hwrites).trans hcopied
        refine ⟨⟨header, head, hheader, hfed, ?_⟩, fun o ho => hall.other ho⟩
        rw [hall.own, hfresh]
        rfl

theorem push_carries {s s' : Sink} {t t' : Track} {xs : List ℤ} {site : Site}
    {pcm : Stereo X.toAudio} (h : Carries X s.log t xs)
    (hpush : t.push s site pcm = (s', t', .ok ())) :
    Carries X s'.log t' (xs ++ samples X pcm) ∧ t'.object = t.object ∧
      ∀ o ≠ t.object, written s'.log o = written s.log o := by
  obtain ⟨header, out, hheader, hfed, hwritten⟩ := h
  obtain ⟨hs, hrest⟩ := Prod.mk.inj hpush
  obtain ⟨rfl, hresult⟩ := Prod.mk.inj hrest
  obtain ⟨bytes, hbytes, hwrites⟩ := putAny_writes (Prod.ext hs hresult)
  refine ⟨⟨header, out ++ bytes, hheader, hfed.push (Prod.ext rfl hbytes), ?_⟩, rfl,
    fun o ho => hwrites.other ho⟩
  rw [hwrites.own, hwritten, List.append_assoc]

end Track

/-- A musician's part of the broadcast, before the limiter. -/
def Stem.heard (stem : Stem X) : Stereo X.toAudio :=
  mixInto [(stem.id, stem.pcm)] (fun _ => stem.fader) none (tickStereoSamples / channels)

/-- A tick of one musician: silence when they are not in it. -/
def RecordPayload.of (payload : RecordPayload X) (id : MemberId) : Stereo X.toAudio :=
  ((payload.stems.find? fun stem => stem.id = id).map Stem.heard).getD (silentTick X)

/-- Buffers of the tick's size, and no musician twice. -/
structure RecordPayload.Proper (payload : RecordPayload X) : Prop where
  mix : payload.mix.length = tickStereoSamples / channels
  stems : ∀ stem ∈ payload.stems, stem.pcm.length = tickStereoSamples / channels
  once : (payload.stems.map Stem.id).Nodup

theorem length_samples (pcm : Stereo X.toAudio) : (samples X pcm).length = pcm.length * channels := by
  induction pcm with
  | nil => rfl
  | cons s rest ih =>
    rw [samples] at ih
    rw [samples, List.flatMap_cons, List.length_append, ih]
    simp only [List.length_cons, List.length_nil, channels]
    omega

theorem Stem.length_heard {stem : Stem X} (h : stem.pcm.length = tickStereoSamples / channels) :
    stem.heard.length = tickStereoSamples / channels := by
  have hsilence : (silence X.toAudio (tickStereoSamples / channels)).length =
      tickStereoSamples / channels := List.length_replicate
  unfold heard mixInto
  rw [List.foldl_cons, List.foldl_nil]
  split
  · exact hsilence
  · unfold addSource
    rw [List.length_zipWith, hsilence, h, min_self]

theorem RecordPayload.Proper.length_of {payload : RecordPayload X} (h : payload.Proper)
    (id : MemberId) : (payload.of id).length = tickStereoSamples / channels := by
  unfold RecordPayload.of
  cases hfind : payload.stems.find? fun stem => stem.id = id with
  | none => exact List.length_replicate
  | some stem => exact Stem.length_heard (h.stems stem (List.mem_of_find?_eq_some hfind))

namespace Take

/-- A take in the middle of a tick: what went into the mix, and what into each stem or would
have. -/
structure Stemwise (X : Encoding) (s : Sink) (t : Take) (mixed : List ℤ)
    (hist : MemberId → List ℤ) : Prop where
  held : Holding s t
  mix : Carries X s.log t.mix mixed
  carried : ∀ id track, (t.stems.getD ∅)[id]? = some track → Carries X s.log track (hist id)
  unheard : ∀ id, (t.stems.getD ∅)[id]? = none → hist id = silent (t.ticks * tickStereoSamples)
  head : ∃ h, t.silence = some h ∧ Grown X h t.ticks

variable {s s' : Sink} {t t' : Take} {mixed : List ℤ} {hist : MemberId → List ℤ}

theorem mem_objects {id : MemberId} {track : Track} (h : (t.stems.getD ∅)[id]? = some track) :
    track.object ∈ (t.stems.getD ∅).toList.map fun e => e.2.object :=
  List.mem_map.mpr ⟨(id, track), ExtTreeMap.mem_toList_iff_getElem?_eq_some.mpr h, rfl⟩

theorem Holding.mix_ne (h : Holding s t) {id : MemberId} {track : Track}
    (hin : (t.stems.getD ∅)[id]? = some track) : t.mix.object ≠ track.object := by
  have hnodup := h.ledger.nodup
  rw [objects_eq] at hnodup
  exact fun heq => (List.nodup_cons.mp hnodup).1 (heq ▸ mem_objects hin)

theorem Holding.stem_ne (h : Holding s t) {id id' : MemberId} {track track' : Track}
    (hin : (t.stems.getD ∅)[id]? = some track) (hin' : (t.stems.getD ∅)[id']? = some track')
    (hne : id' ≠ id) : track'.object ≠ track.object := by
  have hnodup := h.ledger.nodup
  rw [objects_eq] at hnodup
  intro heq
  have hsame := List.inj_on_of_nodup_map (List.nodup_cons.mp hnodup).2
    (ExtTreeMap.mem_toList_iff_getElem?_eq_some.mpr hin')
    (ExtTreeMap.mem_toList_iff_getElem?_eq_some.mpr hin) heq
  exact hne (congrArg Prod.fst hsame)

theorem Stemwise.push (h : Stemwise X s t mixed hist) {id : MemberId} {track track' : Track}
    (hin : (t.stems.getD ∅)[id]? = some track) {pcm : Stereo X.toAudio}
    (hpush : track.push s .samples pcm = (s', track', .ok ())) :
    Stemwise X s' (t.setStem id track') mixed
      (Function.update hist id (hist id ++ samples X pcm)) := by
  obtain ⟨hcarries, hobject, hother⟩ := Track.push_carries (h.carried id track hin) hpush
  have hheld := h.held.push hin pcm
  rw [hpush] at hheld
  refine ⟨hheld, h.mix.frame (hother _ (h.held.mix_ne hin)), fun id' track₁ hin' => ?_,
    fun id' hout => ?_, h.head⟩
  · rw [getElem?_setStem h.held.stems] at hin'
    by_cases hid : id = id'
    · subst hid
      rw [if_pos rfl] at hin'
      obtain rfl := Option.some.inj hin'
      rw [Function.update_self]
      exact hcarries
    · rw [if_neg hid] at hin'
      rw [Function.update_of_ne (Ne.symm hid)]
      exact (h.carried id' track₁ hin').frame (hother _ (h.held.stem_ne hin hin' (Ne.symm hid)))
  · rw [getElem?_setStem h.held.stems] at hout
    by_cases hid : id = id'
    · rw [if_pos hid] at hout
      exact absurd hout (Option.some_ne_none _)
    · rw [if_neg hid] at hout
      rw [Function.update_of_ne (Ne.symm hid)]
      exact h.unheard id' hout

theorem Stemwise.pushMix (h : Stemwise X s t mixed hist) {mix : Track} {pcm : Stereo X.toAudio}
    (hpush : t.mix.push s .samples pcm = (s', mix, .ok ())) :
    Stemwise X s' { t with mix } (mixed ++ samples X pcm) hist := by
  obtain ⟨hcarries, hobject, hother⟩ := Track.push_carries h.mix hpush
  have hledger : Ledger s'.log t.objects := by
    have hobjects := h.held.ledger
    rw [objects_eq] at hobjects ⊢
    have hpushed := Track.push_ledger hobjects .samples pcm
    rw [hpush] at hpushed
    exact hpushed
  refine ⟨⟨h.held.stems, ?_⟩, hcarries, fun id track hin => ?_, h.unheard, h.head⟩
  · rwa [objects_setMix hobject]
  · exact (h.carried id track hin).frame (hother _ (h.held.mix_ne hin).symm)

theorem Stemwise.openStem (h : Stemwise X s t mixed hist) {id : MemberId} {track : Track}
    (hnew : (t.stems.getD ∅)[id]? = none) (hopen : t.openStem X s id = (s', t', .ok track)) :
    Stemwise X s' t' mixed hist ∧
      ∀ id', (t'.stems.getD ∅)[id']? = if id = id' then some track
        else (t.stems.getD ∅)[id']? := by
  have hfound := openStem_found X h.held hnew
  rw [hopen] at hfound
  obtain ⟨head, hsilence, hgrown⟩ := h.head
  have hhead : (t.silence.bind fun h => h.split t.ticks) = some (head.bytes,
      t.ticks * tickStereoSamples / blockInterleaved,
      t.ticks * tickStereoSamples % blockInterleaved) := by
    rw [hsilence, Option.bind_some, hgrown.split]
  unfold Take.openStem openStemTrack at hopen
  rw [hhead] at hopen
  simp only at hopen
  rcases htrack : Track.openWithHead X s
    (objectName t.base (stemName X t.roster t.namesUsed id)) head.bytes
    (t.ticks * tickStereoSamples / blockInterleaved)
    (t.ticks * tickStereoSamples % blockInterleaved) with ⟨s₁, result⟩
  rw [htrack] at hopen
  cases result with
  | error e => exact absurd (congrArg (fun r => r.2.2) hopen) (by simp)
  | ok track₁ =>
    obtain ⟨rfl, hrest⟩ := Prod.mk.inj hopen
    obtain ⟨rfl, hok⟩ := Prod.mk.inj hrest
    obtain rfl := Except.ok.inj hok
    obtain ⟨hcarries, hother⟩ := Track.openWithHead_carries h.held.ledger.written_fresh
      hgrown.fed.resumeSilent htrack
    generalize t.namesUsed ++ [stemName X t.roster t.namesUsed id] = namesUsed at hfound ⊢
    have hlookup : ∀ id', ((({ t with namesUsed } : Take).setStem id track₁).stems.getD ∅)[id']? =
        if id = id' then some track₁ else (t.stems.getD ∅)[id']? :=
      fun id' => getElem?_setStem (t := { t with namesUsed }) h.held.stems
    -- the objects there were are older than the one that was opened
    have hold : ∀ object ∈ t.objects, object ≠ s.log.length :=
      fun object hmem => (h.held.ledger.opened object hmem).lt.ne
    refine ⟨⟨hfound.1, h.mix.frame (hother _ (hold _ ?_)), fun id' track' hin => ?_,
      fun id' hout => ?_, h.head⟩, hlookup⟩
    · rw [objects_eq]
      exact List.mem_cons_self
    · rw [hlookup] at hin
      split_ifs at hin with hid
      · subst hid
        obtain rfl := Option.some.inj hin
        rw [h.unheard id hnew]
        exact hcarries
      · refine (h.carried id' track' hin).frame (hother _ (hold _ ?_))
        rw [objects_eq]
        exact List.mem_cons_of_mem _ (mem_objects hin)
    · rw [hlookup] at hout
      split_ifs at hout with hid
      exact h.unheard id' hout

theorem Stemwise.stemFor (h : Stemwise X s t mixed hist) {id : MemberId} {track : Track}
    (hfor : t.stemFor X s id = (s', t', .ok track)) :
    Stemwise X s' t' mixed hist ∧ (t'.stems.getD ∅)[id]? = some track ∧
      ∀ id' : MemberId, ((t.stems.getD ∅)[id']?).isSome → ((t'.stems.getD ∅)[id']?).isSome := by
  unfold Take.stemFor at hfor
  split at hfor
  · rename_i track' hin
    obtain ⟨rfl, hrest⟩ := Prod.mk.inj hfor
    obtain ⟨rfl, hok⟩ := Prod.mk.inj hrest
    obtain rfl := Except.ok.inj hok
    exact ⟨h, hin, fun _ hopen => hopen⟩
  · rename_i hnew
    obtain ⟨hopened, hlookup⟩ := h.openStem hnew hfor
    refine ⟨hopened, by rw [hlookup, if_pos rfl], fun id' hopen => ?_⟩
    rw [hlookup]
    split_ifs
    · rfl
    · exact hopen

def heardIn (X : Encoding) (stems : List (Stem X)) (id : MemberId) : List ℤ :=
  (stems.filter fun stem => stem.id = id).flatMap fun stem => samples X stem.heard

theorem heardIn_cons (stem : Stem X) (rest : List (Stem X)) (id : MemberId) :
    heardIn X (stem :: rest) id =
      (if stem.id = id then samples X stem.heard else []) ++ heardIn X rest id := by
  unfold heardIn
  rw [List.filter_cons]
  by_cases hid : stem.id = id
  · rw [if_pos (decide_eq_true hid), if_pos hid, List.flatMap_cons]
  · rw [if_neg (by simpa using hid), if_neg hid, List.nil_append]

theorem isSome_setStem (hstems : t.stems.isSome) {id id' : MemberId} {track : Track}
    (h : ((t.stems.getD ∅)[id']?).isSome) :
    (((t.setStem id track).stems.getD ∅)[id']?).isSome := by
  rw [getElem?_setStem hstems]
  split_ifs
  · rfl
  · exact h

theorem Stemwise.feedStems (stems : List (Stem X)) (h : Stemwise X s t mixed hist)
    (hfed : Take.feedStems stems t s = (s', t', .ok ())) :
    Stemwise X s' t' mixed (fun id => hist id ++ heardIn X stems id) ∧
      (∀ stem ∈ stems, ((t'.stems.getD ∅)[stem.id]?).isSome) ∧
      ∀ id : MemberId, ((t.stems.getD ∅)[id]?).isSome → ((t'.stems.getD ∅)[id]?).isSome := by
  induction stems generalizing s t hist with
  | nil =>
    obtain ⟨rfl, hrest⟩ := Prod.mk.inj hfed
    obtain rfl := (Prod.mk.inj hrest).1
    refine ⟨?_, fun stem hstem => absurd hstem List.not_mem_nil, fun _ hopen => hopen⟩
    simpa only [heardIn, List.filter_nil, List.flatMap_nil, List.append_nil] using h
  | cons stem rest ih =>
    unfold Take.feedStems at hfed
    rcases hfor : t.stemFor X s stem.id with ⟨s₁, t₁, result⟩
    rw [hfor] at hfed
    cases result with
    | error e => exact absurd (congrArg (fun r => r.2.2) hfed) (by simp)
    | ok track =>
      obtain ⟨hstem, hin, hkept⟩ := h.stemFor hfor
      simp only at hfed
      rcases hpush : track.push s₁ .samples stem.heard with ⟨s₂, track₂, result⟩
      have hheard : mixInto [(stem.id, stem.pcm)] (fun _ => stem.fader) none
          (tickStereoSamples / channels) = stem.heard := rfl
      rw [hheard, hpush] at hfed
      cases result with
      | error e => exact absurd (congrArg (fun r => r.2.2) hfed) (by simp)
      | ok u =>
        obtain ⟨hrest, hopened, hopen⟩ := ih (hstem.push hin hpush) hfed
        have hset : ∀ id : MemberId, ((t₁.stems.getD ∅)[id]?).isSome →
            (((t₁.setStem stem.id track₂).stems.getD ∅)[id]?).isSome :=
          fun id => isSome_setStem hstem.held.stems
        refine ⟨?_, fun stem' hstem' => ?_, fun id hid => hopen id (hset id (hkept id hid))⟩
        · have hhist : (fun id => hist id ++ heardIn X (stem :: rest) id) = fun id =>
              Function.update hist stem.id (hist stem.id ++ samples X stem.heard) id ++
                heardIn X rest id := by
            funext id
            rw [heardIn_cons, Function.update_apply]
            by_cases hid : stem.id = id
            · subst hid
              rw [if_pos rfl, if_pos rfl, List.append_assoc]
            · rw [if_neg hid, if_neg (Ne.symm hid), List.nil_append]
          rw [hhist]
          exact hrest
        · rcases List.mem_cons.mp hstem' with rfl | hstem'
          · exact hopen _ (hset _ (Option.isSome_iff_exists.mpr ⟨track, hin⟩))
          · exact hopened stem' hstem'

theorem Stemwise.feedAbsent (absent : List (MemberId × Track)) (h : Stemwise X s t mixed hist)
    (hnodup : (absent.map Prod.fst).Nodup)
    (hin : ∀ e ∈ absent, (t.stems.getD ∅)[e.1]? = some e.2)
    (hfed : Take.feedAbsent X absent t s = (s', t', .ok ())) :
    Stemwise X s' t' mixed
        (fun id => hist id ++ if id ∈ absent.map Prod.fst then samples X (silentTick X) else []) ∧
      ∀ id : MemberId, ((t.stems.getD ∅)[id]?).isSome = ((t'.stems.getD ∅)[id]?).isSome := by
  induction absent generalizing s t hist with
  | nil =>
    obtain ⟨rfl, hrest⟩ := Prod.mk.inj hfed
    obtain rfl := (Prod.mk.inj hrest).1
    refine ⟨?_, fun _ => rfl⟩
    simpa only [List.map_nil, List.not_mem_nil, if_false, List.append_nil] using h
  | cons e rest ih =>
    obtain ⟨id, track⟩ := e
    obtain ⟨hnotin, hnodup⟩ := List.nodup_cons.mp hnodup
    unfold Take.feedAbsent at hfed
    rcases hpush : track.push s .samples (silentTick X) with ⟨s₁, track₁, result⟩
    rw [hpush] at hfed
    cases result with
    | error e => exact absurd (congrArg (fun r => r.2.2) hfed) (by simp)
    | ok u =>
      have hhere := hin (id, track) List.mem_cons_self
      have hlookup : ∀ id', ((t.setStem id track₁).stems.getD ∅)[id']? =
          if id = id' then some track₁ else (t.stems.getD ∅)[id']? :=
        fun id' => getElem?_setStem h.held.stems
      have hlater : ∀ e ∈ rest, ((t.setStem id track₁).stems.getD ∅)[e.1]? = some e.2 := by
        intro e he
        have hne : id ≠ e.1 := fun hid => hnotin (List.mem_map.mpr ⟨e, he, hid.symm⟩)
        rw [hlookup, if_neg hne]
        exact hin e (List.mem_cons_of_mem _ he)
      obtain ⟨hrest, hopen⟩ := ih (h.push hhere hpush) hnodup hlater hfed
      refine ⟨?_, fun id' => ?_⟩
      · have hhist : (fun id' => hist id' ++ if id' ∈ ((id, track) :: rest).map Prod.fst
              then samples X (silentTick X) else []) =
            fun id' => Function.update hist id (hist id ++ samples X (silentTick X)) id' ++
              if id' ∈ rest.map Prod.fst then samples X (silentTick X) else [] := by
          funext id'
          rw [Function.update_apply]
          by_cases hid : id' = id
          · subst hid
            rw [if_pos rfl, List.map_cons, if_pos List.mem_cons_self, if_neg hnotin, List.append_nil]
          · rw [if_neg hid]
            simp only [List.map_cons, List.mem_cons, hid, false_or]
        rw [hhist]
        exact hrest
      · rw [← hopen id', hlookup]
        split_ifs with hid
        · rw [← hid, hhere]
          rfl
        · rfl

theorem heardIn_eq {stems : List (Stem X)} (h : (stems.map Stem.id).Nodup) (id : MemberId) :
    heardIn X stems id =
      ((stems.find? fun stem => stem.id = id).map fun stem => samples X stem.heard).getD [] := by
  induction stems with
  | nil => rfl
  | cons stem rest ih =>
    obtain ⟨hnotin, hnodup⟩ := List.nodup_cons.mp h
    rw [heardIn_cons, List.find?_cons, ih hnodup]
    by_cases hid : stem.id = id
    · have hnone : rest.find? (fun stem => stem.id = id) = none := by
        refine List.find?_eq_none.mpr fun stem' hstem' => ?_
        have hne : stem'.id ≠ stem.id := fun heq => hnotin (heq ▸ List.mem_map_of_mem hstem')
        simpa [hid] using hne
      rw [if_pos hid, hnone, decide_eq_true hid, Option.map_none, Option.getD_none, List.append_nil]
      rfl
    · rw [if_neg hid, decide_eq_false hid, List.nil_append]

theorem heardIn_payload {payload : RecordPayload X} (h : payload.Proper) {id : MemberId}
    (hin : id ∈ payload.stems.map Stem.id) :
    heardIn X payload.stems id = samples X (payload.of id) := by
  obtain ⟨stem, hstem, rfl⟩ := List.mem_map.mp hin
  rw [heardIn_eq h.once]
  unfold RecordPayload.of
  cases hfind : payload.stems.find? fun stem' => stem'.id = stem.id with
  | none => exact absurd (List.find?_eq_none.mp hfind stem hstem) (by simp)
  | some stem' => rfl

theorem heardIn_absent {payload : RecordPayload X} {id : MemberId}
    (hout : id ∉ payload.stems.map Stem.id) :
    heardIn X payload.stems id = [] ∧ payload.of id = silentTick X := by
  have hnone : ∀ stem ∈ payload.stems, ¬stem.id = id :=
    fun stem hstem heq => hout (heq ▸ List.mem_map_of_mem hstem)
  constructor
  · unfold heardIn
    rw [List.filter_eq_nil_iff.mpr fun stem hstem => by simpa using hnone stem hstem]
    rfl
  · unfold RecordPayload.of
    rw [List.find?_eq_none.mpr fun stem hstem => by simpa using hnone stem hstem]
    rfl

theorem Stemwise.feedAllStems {payload : RecordPayload X} (hproper : payload.Proper)
    (h : Stemwise X s t mixed hist) (hfed : t.feedAllStems s payload = (s', t', .ok ())) :
    t'.ticks = t.ticks ∧
      (Stemwise X s' t' mixed fun id =>
        hist id ++ if ((t'.stems.getD ∅)[id]?).isSome then samples X (payload.of id) else []) ∧
      ∀ id : MemberId, (t'.stems.getD ∅)[id]? = none → payload.of id = silentTick X := by
  have hticks := (Keeps.feedAllStems t s payload).ticks
  rw [hfed] at hticks
  refine ⟨hticks, ?_⟩
  obtain ⟨stems, hstems⟩ := Option.isSome_iff_exists.mp h.held.stems
  unfold Take.feedAllStems at hfed
  rw [hstems] at hfed
  simp only at hfed
  rcases hheard : Take.feedStems payload.stems t s with ⟨s₁, t₁, result⟩
  rw [hheard] at hfed
  cases result with
  | error e => exact absurd (congrArg (fun r => r.2.2) hfed) (by simp)
  | ok u =>
    obtain ⟨hstem, hopened, -⟩ := h.feedStems payload.stems hheard
    have hmem : ∀ e, e ∈ (t₁.stems.getD ∅).toList.filter (fun e =>
        !payload.stems.any fun stem => stem.id = e.1) ↔
          (t₁.stems.getD ∅)[e.1]? = some e.2 ∧ e.1 ∉ payload.stems.map Stem.id := by
      intro e
      rw [List.mem_filter, ExtTreeMap.mem_toList_iff_getElem?_eq_some]
      simp
    obtain ⟨habsent, hsame⟩ := hstem.feedAbsent _ (by
      refine (List.filter_sublist.map _).nodup ?_
      rw [ExtTreeMap.map_fst_toList_eq_keys]
      exact OrderedMap.nodup_keys _) (fun e he => ((hmem e).mp he).1) hfed
    refine ⟨Eq.mp (congrArg _ ?_) habsent, fun id hnone => (heardIn_absent fun hin => ?_).2⟩
    swap
    · obtain ⟨stem, hstem', rfl⟩ := List.mem_map.mp hin
      have hopen := (hsame stem.id).symm.trans (hopened stem hstem')
      rw [hnone] at hopen
      exact absurd hopen (by simp)
    funext id
    rw [← hsame, List.append_assoc]
    refine congrArg _ ?_
    have hlisted : id ∈ ((t₁.stems.getD ∅).toList.filter (fun e =>
        !payload.stems.any fun stem => stem.id = e.1)).map Prod.fst ↔
          ((t₁.stems.getD ∅)[id]?).isSome ∧ id ∉ payload.stems.map Stem.id := by
      rw [List.mem_map, Option.isSome_iff_exists]
      constructor
      · rintro ⟨e, he, rfl⟩
        obtain ⟨hin, hout⟩ := (hmem e).mp he
        exact ⟨⟨e.2, hin⟩, hout⟩
      · rintro ⟨⟨track, hin⟩, hout⟩
        exact ⟨(id, track), (hmem _).mpr ⟨hin, hout⟩, rfl⟩
    by_cases hin : id ∈ payload.stems.map Stem.id
    · obtain ⟨stem, hstem', rfl⟩ := List.mem_map.mp hin
      rw [heardIn_payload hproper hin, if_neg fun hl => (hlisted.mp hl).2 hin,
        if_pos (hopened stem hstem'), List.append_nil]
    · obtain ⟨hnothing, hsilent⟩ := heardIn_absent hin
      rw [hnothing, hsilent, List.nil_append]
      by_cases hopen : ((t₁.stems.getD ∅)[id]?).isSome
      · rw [if_pos (hlisted.mpr ⟨hopen, hin⟩), if_pos hopen]
      · rw [if_neg fun hl => hopen (hlisted.mp hl).1, if_neg hopen]

structure Aligned (X : Encoding) (s : Sink) (t : Take) (payloads : List (RecordPayload X)) :
    Prop where
  ticks : t.ticks = payloads.length
  ledger : Ledger s.log t.objects
  mix : Carries X s.log t.mix (payloads.flatMap fun payload => samples X payload.mix)
  stems : t.stems.isSome → Stemwise X s t (payloads.flatMap fun payload => samples X payload.mix)
    fun id => payloads.flatMap fun payload => samples X (payload.of id)
  silence : t.stems = none → t.silence = none

variable {payloads : List (RecordPayload X)} {payload : RecordPayload X}

theorem feed_aligned (hX : X.Sound) (h : Aligned X s t payloads) (hproper : payload.Proper)
    (hfed : t.feed s payload = (s', t', .ok ())) : Aligned X s' t' (payloads ++ [payload]) := by
  have hledger := feed_ledger h.ledger payload
  rw [hfed] at hledger
  unfold feed at hfed
  rcases hmix : t.mix.push s .samples payload.mix with ⟨s₁, mix, result⟩
  rw [hmix] at hfed
  cases result with
  | error e => exact absurd (congrArg (fun r => r.2.2) hfed) (by simp)
  | ok u =>
    simp only at hfed
    cases hstems : t.stems with
    | none =>
      have hall : ({ t with mix } : Take).feedAllStems s₁ payload = (s₁, { t with mix }, .ok ()) := by
        unfold feedAllStems
        rw [show ({ t with mix } : Take).stems = none from hstems]
      rw [hall] at hfed
      simp only at hfed
      rw [h.silence hstems] at hfed
      obtain ⟨rfl, hrest⟩ := Prod.mk.inj hfed
      obtain rfl := (Prod.mk.inj hrest).1
      refine ⟨?_, hledger, ?_, fun hsome => ?_, fun _ => rfl⟩
      · rw [List.length_append, ← h.ticks]
        rfl
      · rw [List.flatMap_append, List.flatMap_singleton]
        exact (Track.push_carries h.mix hmix).1
      · exact absurd hsome (by simp [hstems])
    | some stems =>
      have hon : t.stems.isSome := Option.isSome_iff_exists.mpr ⟨stems, hstems⟩
      have hmixed := (h.stems hon).pushMix hmix
      rcases hall : ({ t with mix } : Take).feedAllStems s₁ payload with ⟨s₂, t₁, result⟩
      rw [hall] at hfed
      cases result with
      | error e => exact absurd (congrArg (fun r => r.2.2) hfed) (by simp)
      | ok u =>
        obtain ⟨hticks, hstem, hunheard⟩ := hmixed.feedAllStems hproper hall
        obtain ⟨head, hhead, hgrown⟩ := hstem.head
        have hticks : t₁.ticks = t.ticks := hticks
        simp only at hfed
        rw [hhead] at hfed
        simp only at hfed
        rcases hadvance : head.advance X with ⟨head', result⟩
        rw [hadvance] at hfed
        obtain ⟨rfl, hrest⟩ := Prod.mk.inj hfed
        obtain ⟨rfl, hok⟩ := Prod.mk.inj hrest
        obtain rfl : result = .ok () := hok
        have hcount : t₁.ticks + 1 = (payloads ++ [payload]).length := by
          rw [List.length_append, hticks, h.ticks]
          rfl
        have hsamples : ∀ f : RecordPayload X → List ℤ,
            (payloads ++ [payload]).flatMap f = payloads.flatMap f ++ f payload := fun f => by
          rw [List.flatMap_append, List.flatMap_singleton]
        have hnext : Stemwise X s₂ { t₁ with ticks := t₁.ticks + 1, silence := some head' }
            ((payloads ++ [payload]).flatMap fun payload => samples X payload.mix)
            fun id => (payloads ++ [payload]).flatMap fun payload => samples X (payload.of id) := by
          refine ⟨⟨hstem.held.stems, hstem.held.ledger⟩, ?_, fun id track hin => ?_,
            fun id hout => ?_, head', rfl, hgrown.advance hX hadvance⟩
          · rw [hsamples]
            exact hstem.mix
          · have hcarried := hstem.carried id track hin
            rw [hsamples]
            have hin : (t₁.stems.getD ∅)[id]? = some track := hin
            simp only [hin, Option.isSome_some, if_true] at hcarried
            exact hcarried
          · have hbefore := hstem.unheard id hout
            have hout : (t₁.stems.getD ∅)[id]? = none := hout
            simp only [hout, Option.isSome_none, Bool.false_eq_true, if_false,
              List.append_nil] at hbefore
            rw [hsamples, hbefore, hunheard id hout, samples_silentTick hX, silent_append,
              ← Nat.succ_mul]
        exact ⟨hcount, hledger, hnext.mix, fun _ => hnext, fun hnone => by
          exact absurd hstem.held.stems (by simp [show t₁.stems = none from hnone])⟩

theorem start_aligned {r : Recorder} (hr : r.Accounted) (hnone : r.take = none)
    {unixSecs : UInt64} {stems : Option (List (MemberId × String))}
    (h : (r.start X unixSecs stems).take = some t) :
    Aligned X (r.start X unixSecs stems).sink t [] := by
  have hfree : Ledger r.sink.log [] := by
    unfold Recorder.Accounted Recorder.held at hr
    rwa [hnone] at hr
  have hledger := hr.start X unixSecs stems
  unfold Recorder.Accounted Recorder.held at hledger
  rw [h] at hledger
  unfold Recorder.start at h hledger ⊢
  rw [hnone] at h hledger ⊢
  simp only at h hledger ⊢
  rcases hopen : Track.openTrack X r.sink (objectName (takeBase unixSecs) "mix") with ⟨sink, result⟩
  rw [hopen] at h hledger
  cases result with
  | error e => exact absurd h (by simp)
  | ok mix =>
    obtain ⟨hmix, -⟩ := Track.openTrack_carries hfree.written_fresh hopen
    obtain rfl := Option.some.inj h
    refine ⟨rfl, hledger, hmix, fun hon => ⟨⟨hon, hledger⟩, hmix, fun id track hin => ?_,
      fun id _ => ?_, ?_⟩, fun hoff => ?_⟩
    · cases stems with
      | none => exact absurd hon (by simp)
      | some roster => exact absurd hin (by simp)
    · rw [Nat.zero_mul]
      rfl
    · cases stems with
      | none => exact absurd hon (by simp)
      | some roster => exact ⟨.new, rfl, grown_new⟩
    · cases stems with
      | none => rfl
      | some roster => exact absurd hoff (by simp)

end Take

/-! ## The end of a track -/

theorem put_log (s : Sink) (object : ℕ) (site : Site) (encoded : Except String Bytes) :
    ∃ e, (s.put object site encoded).1.log = s.log ++ [e] ∧ e.1.object? = some object ∧
      e.1.isEnd = false := by
  cases encoded with
  | error err => exact ⟨_, rfl, rfl, rfl⟩
  | ok bytes => exact ⟨_, rfl, rfl, rfl⟩

theorem putAny_log (s : Sink) (object : ℕ) (site : Site) (encoded : Except String Bytes) :
    ∃ events, (s.putAny object site encoded).1.log = s.log ++ events ∧
      ∀ e ∈ events, e.1.object? = some object ∧ e.1.isEnd = false := by
  unfold Sink.putAny
  split
  · exact ⟨[], (List.append_nil _).symm, fun e he => absurd he List.not_mem_nil⟩
  · obtain ⟨e, hlog, he⟩ := put_log s object site encoded
    exact ⟨[e], hlog, fun e' he' => List.mem_singleton.mp he' ▸ he⟩

theorem Track.finish_log (X : Encoding) (t : Track) (s : Sink) :
    ∃ events, (t.finish X s).1.log = s.log ++ events ∧
      ∀ e ∈ events, e.1.object? = some t.object := by
  obtain ⟨events, hlog, hevents⟩ := putAny_log s t.object .tail (t.enc.finish X)
  unfold Track.finish
  split
  · rename_i heq
    rw [heq] at hlog
    exact ⟨events, hlog, fun e he => (hevents e he).1⟩
  · rename_i s₁ heq
    rw [heq] at hlog
    refine ⟨events ++ [(.finish t.object, s₁.fails s₁.log.length)], ?_, fun e he => ?_⟩
    · rw [← List.append_assoc, ← hlog]
      rfl
    · rcases List.mem_append.mp he with he | he
      · exact (hevents e he).1
      · rw [List.mem_singleton.mp he]
        rfl

theorem finishAll_log (X : Encoding) (tracks : List Track) (s : Sink) :
    ∃ events, (Recorder.finishAll X tracks s).1.log = s.log ++ events ∧
      ∀ e ∈ events, ∃ t ∈ tracks, e.1.object? = some t.object := by
  induction tracks generalizing s with
  | nil => exact ⟨[], (List.append_nil _).symm, fun e he => absurd he List.not_mem_nil⟩
  | cons t rest ih =>
    obtain ⟨events, hlog, hevents⟩ := t.finish_log X s
    obtain ⟨later, hlater, hrest⟩ := ih (t.finish X s).1
    refine ⟨events ++ later, ?_, fun e he => ?_⟩
    · rw [← List.append_assoc, ← hlog]
      exact hlater
    · rcases List.mem_append.mp he with he | he
      · exact ⟨t, List.mem_cons_self, hevents e he⟩
      · obtain ⟨t', ht', hobject⟩ := hrest e he
        exact ⟨t', List.mem_cons_of_mem _ ht', hobject⟩

theorem Track.finish_carries {s : Sink} {t : Track}
    (hdone : (.finish t.object, none) ∈ (t.finish X s).1.log)
    (hfresh : (.finish t.object, none) ∉ s.log) :
    ∃ tail, t.enc.finish X = .ok tail ∧ Writes t.object tail s (t.finish X s).1 := by
  obtain ⟨events, hlog, hevents⟩ := putAny_log s t.object .tail (t.enc.finish X)
  have hopen : (.finish t.object, none) ∉ (s.putAny t.object .tail (t.enc.finish X)).1.log := by
    rw [hlog, List.mem_append, not_or]
    exact ⟨hfresh, fun hin => absurd (hevents _ hin).2 (by simp [SinkEvent.isEnd])⟩
  unfold Track.finish at hdone ⊢
  rcases hput : s.putAny t.object .tail (t.enc.finish X) with ⟨s₁, result⟩
  rw [hput] at hdone hopen
  cases result with
  | error e => exact absurd hdone hopen
  | ok u =>
    obtain ⟨tail, htail, hwrites⟩ := putAny_writes hput
    refine ⟨tail, htail, fun o => ?_⟩
    have hnone : written (s₁.call (.finish t.object)).1.log o = written s₁.log o := by
      change written (s₁.log ++ [(.finish t.object, _)]) o = _
      rw [written_append]
      exact List.append_nil _
    exact hnone.trans (hwrites o)

theorem finishAll_carries {tracks : List Track} {s : Sink} {track : Track}
    (hnodup : (tracks.map Track.object).Nodup) (htrack : track ∈ tracks)
    (hfresh : (.finish track.object, none) ∉ s.log)
    (hdone : (.finish track.object, none) ∈ (Recorder.finishAll X tracks s).1.log) :
    ∃ tail, track.enc.finish X = .ok tail ∧
      written (Recorder.finishAll X tracks s).1.log track.object =
        written s.log track.object ++ tail := by
  induction tracks generalizing s with
  | nil => exact absurd htrack List.not_mem_nil
  | cons t rest ih =>
    obtain ⟨hnotin, hnodup⟩ := List.nodup_cons.mp hnodup
    change _ ∈ (Recorder.finishAll X rest (t.finish X s).1).1.log at hdone
    change ∃ tail, _ ∧ written (Recorder.finishAll X rest (t.finish X s).1).1.log _ = _
    rcases List.mem_cons.mp htrack with rfl | htrack
    · obtain ⟨later, hlater, hothers⟩ := finishAll_log X rest (track.finish X s).1
      -- nothing behind it in the list touches its object
      have hapart : ∀ e ∈ later, e.1.object? ≠ some track.object := by
        intro e he hobject
        obtain ⟨t', ht', hobject'⟩ := hothers e he
        rw [hobject] at hobject'
        exact hnotin (Option.some.inj hobject' ▸ List.mem_map_of_mem ht')
      rw [hlater] at hdone ⊢
      have hdone := (List.mem_append.mp hdone).resolve_right fun hin => hapart _ hin rfl
      obtain ⟨tail, htail, hwrites⟩ := Track.finish_carries hdone hfresh
      refine ⟨tail, htail, ?_⟩
      have hnothing : later.flatMap (chunk track.object) = [] :=
        List.flatMap_eq_nil_iff.mpr fun e he => chunk_other (hapart e he)
      rw [written, List.flatMap_append, hnothing, List.append_nil]
      exact hwrites.own
    · obtain ⟨events, hlog, hevents⟩ := t.finish_log X s
      have hne : t.object ≠ track.object := fun heq => hnotin (heq ▸ List.mem_map_of_mem htrack)
      have hapart : ∀ e ∈ events, e.1.object? ≠ some track.object := fun e he hobject =>
        hne (Option.some.inj ((hevents e he).symm.trans hobject))
      have hsame : written (t.finish X s).1.log track.object = written s.log track.object := by
        have hnothing : events.flatMap (chunk track.object) = [] :=
          List.flatMap_eq_nil_iff.mpr fun e he => chunk_other (hapart e he)
        rw [hlog, written, List.flatMap_append, hnothing, List.append_nil]
        rfl
      obtain ⟨tail, htail, hwritten⟩ := ih hnodup htrack (by
        rw [hlog, List.mem_append, not_or]
        exact ⟨hfresh, fun hin => hapart _ hin rfl⟩) hdone
      exact ⟨tail, htail, by rw [hwritten, hsame]⟩

/-! ## Runs -/

structure Played (X : Encoding) where
  recorder : Recorder
  payloads : List (RecordPayload X)

namespace Played

def step (p : Played X) (c : Command X) : Played X where
  recorder := p.recorder.step c
  payloads :=
    match c with
    | .start _ _ => if p.recorder.take.isSome then p.payloads else []
    | .tick payload => p.payloads ++ [payload]
    | .stop => p.payloads

def onSink (X : Encoding) (fails : ℕ → Option String) (uploads : Bool) : Played X :=
  { recorder := .onSink fails uploads, payloads := [] }

/-- Whatever take there is, its tracks are where its ticks left them. -/
structure InStep (p : Played X) : Prop where
  accounted : p.recorder.Accounted
  aligned : ∀ t, p.recorder.take = some t → Take.Aligned X p.recorder.sink t p.payloads
  proper : ∀ payload ∈ p.payloads, payload.Proper

theorem InStep.start {p : Played X} (h : p.InStep) (unixSecs : UInt64)
    (stems : Option (List (MemberId × String))) : (p.step (.start unixSecs stems)).InStep := by
  refine ⟨h.accounted.step (.start unixSecs stems), fun t htake => ?_, fun payload hin => ?_⟩
  swap
  · simp only [step] at hin
    split_ifs at hin
    · exact h.proper payload hin
    · exact absurd hin List.not_mem_nil
  cases hrunning : p.recorder.take with
  | none =>
    have hfresh : (p.step (.start unixSecs stems)).payloads = [] := by
      simp [step, hrunning]
    rw [hfresh]
    exact Take.start_aligned h.accounted hrunning htake
  | some t₀ =>
    have hsame : p.recorder.step (.start unixSecs stems : Command X) = p.recorder := by
      simp only [Recorder.step, Recorder.start, hrunning]
    have hkept : (p.step (.start unixSecs stems)).payloads = p.payloads := by
      simp [step, hrunning]
    rw [hkept]
    change Take.Aligned X (p.recorder.step (.start unixSecs stems : Command X)).sink t _
    change (p.recorder.step (.start unixSecs stems : Command X)).take = some t at htake
    rw [hsame] at htake ⊢
    exact h.aligned t htake

theorem InStep.tick (hX : X.Sound) {p : Played X} (h : p.InStep) {payload : RecordPayload X}
    (hproper : payload.Proper) : (p.step (.tick payload)).InStep := by
  refine ⟨h.accounted.step (.tick payload), fun t htake => ?_, fun payload' hin => ?_⟩
  swap
  · rcases List.mem_append.mp hin with hin | hin
    · exact h.proper payload' hin
    · rwa [List.mem_singleton.mp hin]
  change (p.recorder.tick payload).take = some t at htake
  change Take.Aligned X (p.recorder.tick payload).sink t (p.payloads ++ [payload])
  unfold Recorder.tick at htake ⊢
  cases hrunning : p.recorder.take with
  | none =>
    rw [hrunning] at htake
    exact absurd (hrunning.symm.trans htake) (by simp)
  | some t₀ =>
    rw [hrunning] at htake
    simp only at htake ⊢
    rcases hfed : t₀.feed p.recorder.sink payload with ⟨sink, t₁, result⟩
    rw [hfed] at htake
    cases result with
    | error e => exact absurd htake (by simp [Recorder.fail])
    | ok u =>
      obtain rfl := Option.some.inj htake
      exact Take.feed_aligned hX (h.aligned t₀ hrunning) hproper hfed

theorem InStep.stop {p : Played X} (h : p.InStep) : (p.step .stop).InStep := by
  refine ⟨h.accounted.step .stop, fun t htake => ?_, h.proper⟩
  have hnone := (Recorder.stop_ledger X h.accounted).2
  exact absurd (hnone.symm.trans htake) (by simp)

def Proper : Command X → Prop
  | .tick payload => payload.Proper
  | _ => True

theorem InStep.run (hX : X.Sound) {p : Played X} (h : p.InStep) {commands : List (Command X)}
    (hproper : ∀ c ∈ commands, Proper c) : (run step p commands).InStep := by
  induction commands generalizing p with
  | nil => exact h
  | cons c rest ih =>
    refine ih ?_ fun c' hc' => hproper c' (List.mem_cons_of_mem _ hc')
    have hc := hproper c List.mem_cons_self
    cases c with
    | start unixSecs stems => exact h.start unixSecs stems
    | tick payload => exact h.tick hX hc
    | stop => exact h.stop

theorem onSink_inStep (fails : ℕ → Option String) (uploads : Bool) :
    (onSink X fails uploads).InStep :=
  ⟨Recorder.onSink_accounted fails uploads, fun t htake => absurd htake (by
    exact (Option.some_ne_none t).symm), fun payload hin => absurd hin List.not_mem_nil⟩

theorem samples_flatten (pushes : List (Stereo X.toAudio)) :
    pushes.flatMap (samples X) = samples X pushes.flatten := by
  induction pushes with
  | nil => rfl
  | cons pcm rest ih =>
    unfold samples at ih ⊢
    rw [List.flatMap_cons, List.flatten_cons, List.flatMap_append, ih]

/-- How many ticks went by before a musician was heard. -/
def before (id : MemberId) (payloads : List (RecordPayload X)) : ℕ :=
  payloads.findIdx fun payload => payload.stems.any fun stem => stem.id = id

theorem silent_before (id : MemberId) (payloads : List (RecordPayload X)) :
    payloads.map (fun payload => payload.of id) =
      List.replicate (before id payloads) (silentTick X) ++
        (payloads.drop (before id payloads)).map fun payload => payload.of id := by
  induction payloads with
  | nil => rfl
  | cons payload rest ih =>
    unfold before at ih ⊢
    rw [List.findIdx_cons]
    cases hin : payload.stems.any fun stem => stem.id = id with
    | true => rfl
    | false =>
      have hout : id ∉ payload.stems.map Stem.id := by simpa using hin
      simp only [cond_false, List.map_cons, List.replicate_succ, List.cons_append, List.drop_succ_cons]
      rw [← ih, (Take.heardIn_absent hout).2]

theorem length_ticks {payloads : List (RecordPayload X)} {f : RecordPayload X → Stereo X.toAudio}
    (h : ∀ payload ∈ payloads, (f payload).length = tickStereoSamples / channels) :
    (payloads.flatMap fun payload => samples X (f payload)).length =
      payloads.length * tickStereoSamples := by
  induction payloads with
  | nil => rfl
  | cons payload rest ih =>
    have hone : (samples X (f payload)).length = tickStereoSamples := by
      rw [length_samples, h payload List.mem_cons_self]
      rfl
    rw [List.flatMap_cons, List.length_append, hone,
      ih fun payload' hin => h payload' (List.mem_cons_of_mem _ hin), List.length_cons,
      Nat.succ_mul, Nat.add_comm]

/-- After every tick that succeeded, each track has been fed as many ticks of samples as the
take has. A stem's object holds, while it is open and when it is finished, what an encoder
makes that is fed silence up to its musician's first tick and their audio from there on,
pushed in whatever pieces. -/
theorem stems_stay_aligned (X : Encoding) (hX : X.Sound) (fails : ℕ → Option String)
    (uploads : Bool) (commands : List (Command X)) (hproper : ∀ c ∈ commands, Proper c) (t : Take)
    (htake : (run step (onSink X fails uploads) commands).recorder.take = some t) :
    let p := run step (onSink X fails uploads) commands
    t.ticks = p.payloads.length ∧
    (∀ track ∈ t.tracks, track.enc.frames * blockInterleaved + track.enc.pending.length =
      t.ticks * tickStereoSamples) ∧
    ∀ id track, (t.stems.getD ∅)[id]? = some track → ∀ pushes : List (Stereo X.toAudio),
      pushes.flatten = (List.replicate (before id p.payloads) (silentTick X)).flatten ++
        (p.payloads.drop (before id p.payloads)).flatMap (fun payload => payload.of id) →
      ∃ header out, FlacEncoder.header X = .ok header ∧
        FlacEncoder.new.pushAll X pushes = (track.enc, .ok out) ∧
        written p.recorder.sink.log track.object = header ++ out ∧
        ((.finish track.object, none) ∈ (p.recorder.stop X).sink.log →
          ∃ tail, track.enc.finish X = .ok tail ∧
            written (p.recorder.stop X).sink.log track.object = header ++ out ++ tail) := by
  intro p
  have hp : p.InStep := (onSink_inStep fails uploads).run hX hproper
  have h : Take.Aligned X p.recorder.sink t p.payloads := hp.aligned t htake
  -- a take without stems has no track to ask about
  have hcarried : ∀ id track, (t.stems.getD ∅)[id]? = some track →
      Carries X p.recorder.sink.log track
        (p.payloads.flatMap fun payload => samples X (payload.of id)) := by
    intro id track hin
    refine (h.stems ?_).carried id track hin
    cases hstems : t.stems with
    | none =>
      rw [hstems] at hin
      exact absurd hin (by simp)
    | some stems => rfl
  refine ⟨h.ticks, fun track htrack => ?_, fun id track hin pushes hpushes => ?_⟩
  · rcases List.mem_cons.mp htrack with rfl | htrack
    · obtain ⟨header, out, -, hfed, -⟩ := h.mix
      rw [hfed.length, length_ticks fun payload hin => (hp.proper payload hin).mix, h.ticks]
    · obtain ⟨⟨id, track⟩, hmem, rfl⟩ := List.mem_map.mp htrack
      have hin := ExtTreeMap.mem_toList_iff_getElem?_eq_some.mp hmem
      obtain ⟨header, out, -, hfed, -⟩ := hcarried id track hin
      rw [hfed.length, length_ticks fun payload hin => (hp.proper payload hin).length_of id,
        h.ticks]
  · obtain ⟨header, out, hheader, hfed, hwritten⟩ := hcarried id track hin
    have hsplit : pushes.flatten = p.payloads.flatMap fun payload => payload.of id := by
      rw [hpushes, List.flatMap_def, ← List.flatten_append, ← silent_before, List.flatMap_def]
    -- the encoder's bytes depend on the samples alone, however they were pushed
    have hfed' : Fed X ([] ++ pushes.flatMap (samples X)) track.enc out := by
      rw [List.nil_append, samples_flatten, hsplit, List.flatMap_def, ← samples_flatten,
        List.flatMap_map]
      exact hfed
    obtain ⟨more, hpushed, hmore⟩ := fed_new.pushAll pushes hfed'
    obtain rfl : more = out := hmore
    refine ⟨header, more, hheader, hpushed, hwritten, fun hdone => ?_⟩
    have hlive : track.object ∈ t.objects := by
      rw [Take.objects_eq]
      exact List.mem_cons_of_mem _ (Take.mem_objects hin)
    have htracks : track ∈ t.tracks :=
      List.mem_cons_of_mem _ (List.mem_map.mpr
        ⟨(id, track), ExtTreeMap.mem_toList_iff_getElem?_eq_some.mpr hin, rfl⟩)
    have hstop : (p.recorder.stop X).sink = (Recorder.finishAll X t.tracks p.recorder.sink).1 := by
      unfold Recorder.stop
      rw [show p.recorder.take = some t from htake]
    -- the finish in the log is the one this stop makes
    have hfresh : (SinkEvent.finish track.object, (none : Option String)) ∉ p.recorder.sink.log := by
      intro hended
      have hcount : 0 < endings p.recorder.sink.log track.object :=
        List.countP_pos_iff.mpr ⟨_, hended, by simp [SinkEvent.isEnd, SinkEvent.object?]⟩
      have hnone := h.ledger.fresh track.object hlive
      omega
    rw [hstop] at hdone ⊢
    obtain ⟨tail, htail, hall⟩ := finishAll_carries h.ledger.nodup htracks hfresh hdone
    exact ⟨tail, htail, hall.trans (by rw [hwritten])⟩

/-- A musician who is first heard in the second tick. -/
def late : List (Command Recorder.mute) :=
  [.start 0 (some []), .tick (.default _),
    .tick { mix := silentTick _, stems := [{ id := 1, fader := .unity, pcm := silentTick _ }] }]

theorem stems_stay_aligned_late :
    ∃ t, (run step (onSink Recorder.mute (fun _ => none) false) late).recorder.take = some t ∧
      t.ticks = 2 ∧ ((t.stems.getD ∅)[(1 : MemberId)]?).isSome ∧
      ∀ track ∈ t.tracks, track.enc.frames * blockInterleaved + track.enc.pending.length =
        t.ticks * tickStereoSamples := by
  have hsound : Recorder.mute.Sound := ⟨rfl, fun _ _ frame h => by
    rw [← Except.ok.inj h]
    exact List.cons_ne_nil _ _⟩
  have hproper : ∀ c ∈ late, Proper c := by
    intro c hc
    simp only [late, List.mem_cons, List.not_mem_nil, or_false] at hc
    rcases hc with rfl | rfl | rfl
    · trivial
    · exact ⟨List.length_replicate, by simp [RecordPayload.default], by simp [RecordPayload.default]⟩
    · exact ⟨List.length_replicate, by simp [silentTick, silence], by simp⟩
  have hopen : (run step (onSink Recorder.mute (fun _ => none) false) late).recorder.take.any
      (fun t => ((t.stems.getD ∅)[(1 : MemberId)]?).isSome) = true := by decide +kernel
  cases htake : (run step (onSink Recorder.mute (fun _ => none) false) late).recorder.take with
  | none =>
    rw [htake] at hopen
    exact absurd hopen Bool.false_ne_true
  | some t =>
    rw [htake] at hopen
    obtain ⟨hticks, htracks, -⟩ := stems_stay_aligned Recorder.mute hsound (fun _ => none) false
      late hproper t htake
    exact ⟨t, rfl, hticks, hopen, htracks⟩

end Played
end JamStream.Recording
