import JamStream.Recording.Names

/-! The recorder: it is fed ticks and feeds a sink, one object for the mix and one for
each musician heard while stems are on. Which of the sink's calls fail, and how, is
the sink's own pattern; what became of each object is read off its log. -/

namespace JamStream.Recording
open Protocol Engine
open Std (ExtTreeMap)

/-- What a write is for. The first three stand between an object and its track, the
last one between the track and the object's end. -/
inductive Site
  | header
  | head
  | backfill
  | samples
  | tail
deriving DecidableEq

inductive SinkEvent
  | opening (name : String)
  | write (object : ℕ) (site : Site) (chunk : Bytes)
  /-- Not a call: the encoder had nothing to write. -/
  | spoilt (object : ℕ) (site : Site)
  | finish (object : ℕ)
  | abort (object : ℕ)
deriving DecidableEq

structure Sink where
  fails : ℕ → Option String
  uploads : Bool
  log : List (SinkEvent × Option String)

namespace Sink

def record (s : Sink) (event : SinkEvent) (err : Option String) : Sink :=
  { s with log := s.log ++ [(event, err)] }

/-- One call, failing as the pattern says. -/
def call (s : Sink) (event : SinkEvent) : Sink × Except String Unit :=
  let err := s.fails s.log.length
  (s.record event err, match err with
    | none => .ok ()
    | some e => .error e)

def put (s : Sink) (object : ℕ) (site : Site) : Except String Bytes → Sink × Except String Unit
  | .error e => (s.record (.spoilt object site) (some e), .error e)
  | .ok chunk => s.call (.write object site chunk)

/-- Nothing is written when there is nothing to write. -/
def putAny (s : Sink) (object : ℕ) (site : Site) (encoded : Except String Bytes) :
    Sink × Except String Unit :=
  match encoded with
  | .ok [] => (s, .ok ())
  | encoded => s.put object site encoded

end Sink

inductive RecordingState
  | idle
  | recording (stems : Bool)
  | uploading
  | failed (reason : String)
deriving DecidableEq

structure Track where
  enc : FlacEncoder
  object : ℕ

structure SilentHead where
  enc : FlacEncoder
  bytes : Bytes
  frameEnds : List ℕ

structure Take where
  base : String
  mix : Track
  stems : Option (ExtTreeMap MemberId Track)
  silence : Option SilentHead
  roster : List (MemberId × String)
  namesUsed : List String
  ticks : ℕ

structure Recorder where
  sink : Sink
  take : Option Take
  state : RecordingState

variable (X : Encoding)

structure Stem where
  id : MemberId
  fader : Fader
  pcm : Stereo X.toAudio

/-- One tick: the broadcast mix, and what each musician sent before it was mixed. -/
structure RecordPayload where
  mix : Stereo X.toAudio
  stems : List (Stem X)

def silentTick : Stereo X.toAudio := silence X.toAudio (tickStereoSamples / channels)

def RecordPayload.default : RecordPayload X := { mix := silentTick X, stems := [] }

variable {X}

namespace Track

/-- A track is there once its header is written. -/
def openTrack (X : Encoding) (s : Sink) (file : String) : Sink × Except String Track :=
  let object := s.log.length
  match s.call (.opening file) with
  | (s, .error e) => (s, .error e)
  | (s, .ok ()) =>
    match s.put object .header (FlacEncoder.header X) with
    | (s, .error e) => (s, .error e)
    | (s, .ok ()) => (s, .ok { enc := .new, object })

def openWithHead (X : Encoding) (s : Sink) (file : String) (head : Bytes) (frames pending : ℕ) :
    Sink × Except String Track :=
  let object := s.log.length
  match s.call (.opening file) with
  | (s, .error e) => (s, .error e)
  | (s, .ok ()) =>
    match s.put object .header (FlacEncoder.header X) with
    | (s, .error e) => (s, .error e)
    | (s, .ok ()) =>
      match s.put object .head (.ok head) with
      | (s, .error e) => (s, .error e)
      | (s, .ok ()) => (s, .ok { enc := .resumeSilent frames pending, object })

def push (t : Track) (s : Sink) (site : Site) (pcm : Stereo X.toAudio) :
    Sink × Track × Except String Unit :=
  let r := t.enc.push X pcm
  let w := s.putAny t.object site r.2
  (w.1, { t with enc := r.1 }, w.2)

/-- The object is finished behind its tail, and left alone when that fails. -/
def finish (X : Encoding) (t : Track) (s : Sink) : Sink × Except String Unit :=
  match s.putAny t.object .tail (t.enc.finish X) with
  | (s, .error e) => (s, .error e)
  | (s, .ok ()) => s.call (.finish t.object)

def abort (t : Track) (s : Sink) : Sink := (s.call (.abort t.object)).1

end Track

namespace SilentHead

def new : SilentHead := { enc := .new, bytes := [], frameEnds := [] }

/-- A tick is shorter than a block, so at most one frame is completed. -/
def advance (X : Encoding) (h : SilentHead) : SilentHead × Except String Unit :=
  match h.enc.push X (silentTick X) with
  | (enc, .error e) => ({ h with enc }, .error e)
  | (enc, .ok []) => ({ h with enc }, .ok ())
  | (enc, .ok frame) =>
    ({ enc, bytes := h.bytes ++ frame
       frameEnds := h.frameEnds ++ [h.bytes.length + frame.length] }, .ok ())

/-- The frames to copy, how many they are, and the samples left over. -/
def split (h : SilentHead) (ticks : ℕ) : Option (Bytes × ℕ × ℕ) :=
  let needed := ticks * tickStereoSamples
  let frames := needed / blockInterleaved
  let upTo := if frames = 0 then some 0 else h.frameEnds[frames - 1]?
  upTo.map fun n => (h.bytes.take n, frames, needed % blockInterleaved)

end SilentHead

namespace Take

def tracks (t : Take) : List Track := t.mix :: ((t.stems.getD ∅).toList.map Prod.snd)

def setStem (t : Take) (id : MemberId) (track : Track) : Take :=
  { t with stems := t.stems.map fun stems => stems.insert id track }

def backfill (X : Encoding) : ℕ → Sink → Track → Sink × Except String Track
  | 0, s, track => (s, .ok track)
  | n + 1, s, track =>
    match track.push s .backfill (silentTick X) with
    | (s, _, .error e) => (s, .error e)
    | (s, track, .ok ()) => backfill X n s track

/-- A stem's track, its silence copied where the head reaches that far. -/
def openStemTrack (X : Encoding) (t : Take) (s : Sink) (file : String) :
    Sink × Except String Track :=
  match t.silence.bind fun h => h.split t.ticks with
  | some (head, frames, pending) => Track.openWithHead X s file head frames pending
  | none =>
    match Track.openTrack X s file with
    | (s, .error e) => (s, .error e)
    | (s, .ok track) => backfill X t.ticks s track

/-- A musician first heard now gets a stem that lines up with the mix. -/
def openStem (X : Encoding) (t : Take) (s : Sink) (id : MemberId) :
    Sink × Take × Except String Track :=
  let name := stemName X t.roster t.namesUsed id
  match t.openStemTrack X s (objectName t.base name) with
  | (s, .error e) => (s, t, .error e)
  | (s, .ok track) =>
    (s, { t with namesUsed := t.namesUsed ++ [name] }.setStem id track, .ok track)

def stemFor (X : Encoding) (t : Take) (s : Sink) (id : MemberId) :
    Sink × Take × Except String Track :=
  match (t.stems.getD ∅)[id]? with
  | some track => (s, t, .ok track)
  | none => t.openStem X s id

/-- The musicians heard in this tick, each under the fader the mix had for them. -/
def feedStems : List (Stem X) → Take → Sink → Sink × Take × Except String Unit
  | [], t, s => (s, t, .ok ())
  | stem :: rest, t, s =>
    match t.stemFor X s stem.id with
    | (s, t, .error e) => (s, t, .error e)
    | (s, t, .ok track) =>
      let pcm := mixInto [(stem.id, stem.pcm)] (fun _ => stem.fader) none
        (tickStereoSamples / channels)
      match track.push s .samples pcm with
      | (s, track, .error e) => (s, t.setStem stem.id track, .error e)
      | (s, track, .ok ()) => feedStems rest (t.setStem stem.id track) s

def feedAbsent (X : Encoding) : List (MemberId × Track) → Take → Sink →
    Sink × Take × Except String Unit
  | [], t, s => (s, t, .ok ())
  | (id, track) :: rest, t, s =>
    match track.push s .samples (silentTick X) with
    | (s, track, .error e) => (s, t.setStem id track, .error e)
    | (s, track, .ok ()) => feedAbsent X rest (t.setStem id track) s

def feedAllStems (t : Take) (s : Sink) (payload : RecordPayload X) :
    Sink × Take × Except String Unit :=
  match t.stems with
  | none => (s, t, .ok ())
  | some _ =>
    match feedStems payload.stems t s with
    | (s, t, .error e) => (s, t, .error e)
    | (s, t, .ok ()) =>
      let absent := (t.stems.getD ∅).toList.filter fun e =>
        !payload.stems.any fun stem => stem.id = e.1
      feedAbsent X absent t s

/-- One tick of everything: the mix, the stems, and the silent head. -/
def feed (t : Take) (s : Sink) (payload : RecordPayload X) : Sink × Take × Except String Unit :=
  match t.mix.push s .samples payload.mix with
  | (s, mix, .error e) => (s, { t with mix }, .error e)
  | (s, mix, .ok ()) =>
    match { t with mix }.feedAllStems s payload with
    | (s, t, .error e) => (s, t, .error e)
    | (s, t, .ok ()) =>
      let t := { t with ticks := t.ticks + 1 }
      match t.silence with
      | none => (s, t, .ok ())
      | some h => (s, { t with silence := some (h.advance X).1 }, (h.advance X).2)

end Take

namespace Recorder

def new (sink : Sink) : Recorder := { sink, take := none, state := .idle }

def start (X : Encoding) (r : Recorder) (unixSecs : UInt64)
    (stems : Option (List (MemberId × String))) : Recorder :=
  match r.take with
  | some _ => r
  | none =>
    let base := takeBase unixSecs
    match Track.openTrack X r.sink (objectName base "mix") with
    | (sink, .error e) =>
      { r with sink, state := .failed ("cannot open the mix file: " ++ e) }
    | (sink, .ok mix) =>
      { sink
        state := .recording stems.isSome
        take := some
          { base, mix, stems := stems.map fun _ => ∅, silence := stems.map fun _ => .new
            roster := stems.getD [], namesUsed := ["mix"], ticks := 0 } }

def fail (r : Recorder) (reason : String) : Recorder :=
  match r.take with
  | none => { r with state := .failed reason }
  | some t =>
    { sink := t.tracks.foldl (fun s track => track.abort s) r.sink
      take := none, state := .failed reason }

def tick (r : Recorder) (payload : RecordPayload X) : Recorder :=
  match r.take with
  | none => r
  | some t =>
    match t.feed r.sink payload with
    | (sink, t, .ok ()) => { r with sink, take := some t }
    | (sink, t, .error e) => { r with sink, take := some t }.fail ("recording failed: " ++ e)

/-- Every track is finished, whatever became of the ones before it. -/
def finishAll (X : Encoding) : List Track → Sink → Sink × Except String Unit
  | [], s => (s, .ok ())
  | track :: rest, s =>
    let finished := track.finish X s
    let others := finishAll X rest finished.1
    (others.1, match finished.2 with
      | .ok () => others.2
      | .error e => .error e)

def stop (X : Encoding) (r : Recorder) : Recorder :=
  match r.take with
  | none => r
  | some t =>
    let finished := finishAll X t.tracks r.sink
    { sink := finished.1, take := none
      state := match finished.2 with
        | .ok () => .idle
        | .error e => .failed ("recording could not be finished: " ++ e) }

def stopWillUpload (r : Recorder) : Bool := r.take.isSome && r.sink.uploads

end Recorder
end JamStream.Recording
