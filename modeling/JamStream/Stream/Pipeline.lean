import JamStream.Foundations.Each
import JamStream.Foundations.Search
import JamStream.Stream.Cadence
import JamStream.Stream.Processes

/-! The supervisor of a broadcast: one encoder, one pusher for each destination, restarted
with a backoff that doubles up to its cap. Times and processes are inputs; what the machine
answers to one call is gathered in `Conditions`. -/

namespace JamStream.Stream
open Protocol Foundations Each

def healthyMs : UInt64 := 3000
def backoffBaseMs : UInt64 := 500
def backoffMaxMs : UInt64 := 16000
def progressProbeMs : UInt64 := 200
def progressTrimMs : UInt64 := 60000
def streamReasonBudget : ℕ := 128

inductive StreamError
  | unknownPlatform (platform : StreamPlatform)
  | tooManyDestinations
  | noSuchDestination (id : DestinationId)
deriving DecidableEq

structure PlatformSpec where
  ingestUrlTemplate : String

def PlatformSpec.ingestUrl (spec : PlatformSpec) (key : String) : String :=
  String.ofList
    (replace "\x7bkey\x7d".toList key.toList spec.ingestUrlTemplate.toList)

abbrev PlatformCatalog := StreamPlatform → Option PlatformSpec

def PlatformCatalog.bundled : PlatformCatalog
  | .twitch => some ⟨"rtmps://live.twitch.tv:443/app/\x7bkey\x7d"⟩
  | .youTube => some ⟨"rtmps://a.rtmps.youtube.com:443/live2/\x7bkey\x7d"⟩

structure StreamConfig where
  catalog : PlatformCatalog
  fps : ℕ
  /-- The file name of the encoder's program. -/
  ffmpeg : String

/-- How to get a program, a Windows ending aside. -/
def hint (name : List Char) : Option String :=
  let bare := if ".exe".toList.isSuffixOf name then name.take (name.length - 4) else name
  if bare = "ffmpeg".toList then
    some "brew install ffmpeg, apt install ffmpeg, winget install ffmpeg"
  else if bare = "mediamtx".toList then
    some "brew install mediamtx, or a release from github.com/bluenviron/mediamtx"
  else none

def missing (name : String) : String :=
  match hint name.toList with
  | some hint => name ++ " is not installed; put it on PATH (" ++ hint ++ ")"
  | none => name ++ " is not installed"

/-- What the machine answers during one call: which spawns fail and with what, which files
cannot be removed, staged or opened. -/
structure Conditions where
  encoder : Option IoError
  installed : Bool
  onStop : DestinationId → Option String
  clear : DestinationId → Option String
  stage : DestinationId → Option String
  pusher : DestinationId → Option IoError
  trims : DestinationId → Bool

structure Backoff where
  attempts : UInt32
deriving DecidableEq

namespace Backoff

def new : Backoff := ⟨0⟩

def delayMs (b : Backoff) : UInt64 :=
  if b.attempts = 0 then 0
  else min (backoffBaseMs <<< (min (b.attempts - 1) 63).toUInt64) backoffMaxMs

def fail (b : Backoff) : Backoff × UInt64 :=
  let failed : Backoff := ⟨Session.saturatingAdd32 b.attempts 1⟩
  (failed, failed.delayMs)

end Backoff

def fitStreamReason (reason : String) : String :=
  String.ofList (Session.fitHead streamReasonBudget reason.toList)

def fitted : DestinationState → DestinationState
  | .failed reason => .failed (fitStreamReason reason)
  | state => state

structure Destination where
  id : DestinationId
  platform : StreamPlatform
  key : String
  proc : Option ProcId
  state : DestinationState
  backoff : Backoff
  retryAtMs : Option UInt64
  progressAtMs : UInt64
deriving DecidableEq

def waits (nowMs : UInt64) (retryAtMs : Option UInt64) : Bool := retryAtMs.any (nowMs < ·)

namespace Destination

def new (id : DestinationId) (platform : StreamPlatform) (key : String) : Destination :=
  { id, platform, key, proc := none, state := .idle, backoff := .new, retryAtMs := none
    progressAtMs := 0 }

def setState (d : Destination) (state : DestinationState) (o : Outside) : Destination × Outside :=
  if d.state = fitted state then (d, o)
  else ({ d with state := fitted state }, o.emit (.destinationChanged d.id d.platform (fitted state)))

/-- A failure: the next try waits out the backoff. -/
def failed (d : Destination) (nowMs : UInt64) (reason : String) (o : Outside) :
    Destination × Outside :=
  { d with backoff := d.backoff.fail.1, retryAtMs := some (nowMs + d.backoff.fail.2) }.setState
    (.failed reason) o

/-- Kills the pusher; whether its progress file could be removed is not asked. -/
def stop (c : Conditions) (d : Destination) (o : Outside) : Destination × Outside :=
  let o := match d.proc with
    | some proc => o.kill proc
    | none => o
  ({ d with proc := none }, (o.clearProgress d.id (c.onStop d.id)).2)

def readReport (c : Conditions) (nowMs : UInt64) (d : Destination) (o : Outside) :
    Destination × Outside :=
  if nowMs < d.progressAtMs then (d, o)
  else
    match d.state with
    | .connecting =>
      if o.pushed d.id then
        { d with backoff := .new, progressAtMs := nowMs + progressTrimMs }.setState .live
          (o.sawBlock d.id)
      else ({ d with progressAtMs := nowMs + progressProbeMs }, o)
    | .live =>
      ({ d with progressAtMs := nowMs + progressTrimMs }, o.trimProgress d.id (c.trims d.id))
    | _ => (d, o)

/-- The progress file goes before the key is staged: a block of the last attempt would be
read as this one's. -/
def spawnPusher (cfg : StreamConfig) (c : Conditions) (nowMs : UInt64) (d : Destination)
    (o : Outside) : Destination × Outside :=
  match cfg.catalog d.platform with
  | none =>
    let name := match d.platform with
      | .twitch => "twitch"
      | .youTube => "youtube"
    d.setState (.failed ("no catalog entry for " ++ name)) o
  | some spec =>
    match o.clearProgress d.id (c.clear d.id) with
    | (.error err, o) => d.failed nowMs ("cannot clear progress file: " ++ err) o
    | (.ok _, o) =>
      match c.stage d.id with
      | some err => d.failed nowMs ("cannot stage key file: " ++ err) o
      | none =>
        let procSpec : ProcSpec :=
          { label := .pusher d.platform d.id, stdin := .secretFile (spec.ingestUrl d.key) }
        match o.spawn procSpec (c.pusher d.id) with
        | (.ok proc, o) =>
          { d with proc := some proc, progressAtMs := nowMs, retryAtMs := none }.setState
            .connecting o
        | (.error err, o) => d.failed nowMs ("spawn failed: " ++ err.text) o

/-- Without an encode there is nothing to push: the destination says why. -/
def attempt (cfg : StreamConfig) (c : Conditions) (nowMs : UInt64) (encoding : Bool)
    (encoderReason : Option String) (d : Destination) (o : Outside) : Destination × Outside :=
  if !encoding then
    match encoderReason with
    | some reason => d.setState (.failed ("encoder down: " ++ reason)) o
    | none => (d, o)
  else if waits nowMs d.retryAtMs then (d, o)
  else d.spawnPusher cfg c nowMs o

def poll (cfg : StreamConfig) (c : Conditions) (nowMs : UInt64) (encoding : Bool)
    (encoderReason : Option String) (d : Destination) (o : Outside) : Destination × Outside :=
  match d.proc with
  | some proc =>
    match o.poll proc with
    | .running => d.readReport c nowMs o
    | .exited reason =>
      { d with proc := none }.failed nowMs ("push failed: " ++ reason) (o.kill proc)
  | none => d.attempt cfg c nowMs encoding encoderReason o

/-- An id that is added again starts over with the new platform and key. -/
def replace (c : Conditions) (platform : StreamPlatform) (key : String) (d : Destination)
    (o : Outside) : Destination × Outside :=
  { (d.stop c o).1 with platform, key, backoff := .new, retryAtMs := none }.setState .idle
    (d.stop c o).2

def idle (c : Conditions) (d : Destination) (o : Outside) : Destination × Outside :=
  { (d.stop c o).1 with backoff := .new, retryAtMs := none }.setState .idle (d.stop c o).2

end Destination

/-- Changes the first destination with an id; nothing if there is none. -/
def onDestination (id : DestinationId) (f : Destination → Outside → Destination × Outside) :
    List Destination → Outside → Option (List Destination × Outside)
  | [], _ => none
  | d :: ds, o =>
    if d.id = id then some ((f d o).1 :: ds, (f d o).2)
    else (onDestination id f ds o).map fun r => (d :: r.1, r.2)

structure Encoder where
  proc : ProcId
  spawnedMs : UInt64
  healthy : Bool
deriving DecidableEq

inductive Feed
  | queued
  | dropped
deriving DecidableEq

/-- What becomes of the writes of one tick: the audio's, then each frame's. -/
structure Writes where
  audio : Option String
  frame : ℕ → Except String Feed

structure Pipeline where
  cfg : StreamConfig
  outside : Outside
  cadence : VideoCadence
  encoder : Option Encoder
  encoderBackoff : Backoff
  encoderRetryAtMs : Option UInt64
  /-- Why there is no encoder when there should be one. -/
  encoderReason : Option String
  started : Bool
  dests : List Destination
  droppedFrames : ℕ
  repeatedFrames : ℕ

namespace Pipeline

def new (cfg : StreamConfig) : Pipeline :=
  { cfg, outside := .new, cadence := .new cfg.fps, encoder := none, encoderBackoff := .new
    encoderRetryAtMs := none, encoderReason := none, started := false, dests := []
    droppedFrames := 0, repeatedFrames := 0 }

def emit (s : Pipeline) (event : PipelineEvent) : Pipeline :=
  { s with outside := s.outside.emit event }

/-- The encoder is down, for a reason and for as long as its backoff says. -/
def encoderDown (s : Pipeline) (nowMs : UInt64) (reason : String) : Pipeline :=
  { s with
    encoderBackoff := s.encoderBackoff.fail.1
    encoderRetryAtMs := some (nowMs + s.encoderBackoff.fail.2)
    encoderReason := some reason }.emit (.encoderDown reason)

def dropEncoder (s : Pipeline) : Pipeline :=
  match s.encoder with
  | some enc => { s with encoder := none, outside := s.outside.kill enc.proc }
  | none => s

def spawnReason (s : Pipeline) (c : Conditions) (err : IoError) : String :=
  if err.notFound ∧ !c.installed then missing s.cfg.ffmpeg else "spawn failed: " ++ err.text

def encoderSpec : ProcSpec := { label := .encoder, stdin := .pipe }

def spawnEncoder (s : Pipeline) (c : Conditions) (nowMs : UInt64) : Pipeline :=
  match s.outside.spawn encoderSpec c.encoder with
  | (.ok proc, outside) =>
    { s with
      outside
      cadence := .new s.cfg.fps
      encoder := some { proc, spawnedMs := nowMs, healthy := false }
      encoderRetryAtMs := none
      encoderReason := none }.emit .encoderUp
  | (.error err, outside) => { s with outside }.encoderDown nowMs (s.spawnReason c err)

def pollEncoder (s : Pipeline) (c : Conditions) (nowMs : UInt64) : Pipeline :=
  match s.encoder with
  | some enc =>
    match s.outside.poll enc.proc with
    | .running =>
      if !enc.healthy ∧ healthyMs ≤ Session.saturatingSub nowMs enc.spawnedMs then
        { s with encoder := some { enc with healthy := true }, encoderBackoff := .new }
      else s
    | .exited reason => s.dropEncoder.encoderDown nowMs reason
  | none => if waits nowMs s.encoderRetryAtMs then s else s.spawnEncoder c nowMs

def eachDestination (s : Pipeline) (f : Destination → Outside → Destination × Outside) : Pipeline :=
  { s with dests := (each f s.dests s.outside).1, outside := (each f s.dests s.outside).2 }

def pollDestinations (s : Pipeline) (c : Conditions) (nowMs : UInt64) : Pipeline :=
  s.eachDestination (Destination.poll s.cfg c nowMs s.encoder.isSome s.encoderReason)

def poll (s : Pipeline) (c : Conditions) (nowMs : UInt64) : Pipeline :=
  if s.started then (s.pollEncoder c nowMs).pollDestinations c nowMs else s

def newDestination (s : Pipeline) (id : DestinationId) (platform : StreamPlatform)
    (key : String) : Pipeline :=
  { s with
    dests := s.dests ++ [Destination.new id platform key]
    outside := s.outside.emit (.destinationChanged id platform .idle) }

/-- An id is replaced where it stands; a new one goes to the end, unless the list is full. -/
def addDestination (s : Pipeline) (c : Conditions) (nowMs : UInt64) (id : DestinationId)
    (platform : StreamPlatform) (key : String) : Except StreamError Unit × Pipeline :=
  match s.cfg.catalog platform with
  | none => (.error (.unknownPlatform platform), s)
  | some _ =>
    match onDestination id (Destination.replace c platform key) s.dests s.outside with
    | some (dests, outside) => (.ok (), { s with dests, outside }.poll c nowMs)
    | none =>
      if maxDestinations ≤ s.dests.length then (.error .tooManyDestinations, s)
      else (.ok (), (s.newDestination id platform key).poll c nowMs)

def dropDestination (s : Pipeline) (c : Conditions) (d : Destination) : Pipeline :=
  { s with
    dests := s.dests.eraseP (·.id = d.id)
    outside := (d.stop c s.outside).2.emit (.destinationChanged d.id d.platform .idle) }

def removeDestination (s : Pipeline) (c : Conditions) (id : DestinationId) :
    Except StreamError Unit × Pipeline :=
  match s.dests.find? (·.id = id) with
  | none => (.error (.noSuchDestination id), s)
  | some d => (.ok (), s.dropDestination c d)

def stopEncoder (s : Pipeline) : Pipeline :=
  match s.encoder with
  | some _ => { s.dropEncoder with encoderBackoff := .new }.emit (.encoderDown "stopped by host")
  | none => { s with encoderBackoff := .new }

/-- The retry time of the encoder is left as it is: the next start clears it. -/
def stop (s : Pipeline) (c : Conditions) : Pipeline :=
  ({ s with started := false }.eachDestination (Destination.idle c)).stopEncoder

def apply (s : Pipeline) (c : Conditions) (nowMs : UInt64) :
    StreamOp → Except StreamError Unit × Pipeline
  | .addDestination id platform key => s.addDestination c nowMs id platform key
  | .removeDestination id => s.removeDestination c id
  | .start => (.ok (), { s with started := true, encoderRetryAtMs := none }.poll c nowMs)
  | .stop => (.ok (), s.stop c)

def encoderFailed (s : Pipeline) (nowMs : UInt64) (reason : String) : Pipeline :=
  s.dropEncoder.encoderDown nowMs reason

/-- The first frame of a run is drawn; the others repeat it. -/
def pushFrames (w : Writes) (nowMs : UInt64) : Bool → List ℕ → Pipeline → Pipeline
  | _, [], s => s
  | rendered, frame :: frames, s =>
    let s := if rendered then { s with repeatedFrames := s.repeatedFrames + 1 } else s
    match w.frame frame with
    | .ok .queued => pushFrames w nowMs true frames s
    | .ok .dropped =>
      pushFrames w nowMs true frames { s with droppedFrames := s.droppedFrames + 1 }
    | .error err => s.encoderFailed nowMs ("video write failed: " ++ err)

def pushTick (s : Pipeline) (w : Writes) (nowMs : UInt64) (samples : ℕ) : Pipeline :=
  match s.encoder with
  | none => s
  | some _ =>
    match w.audio with
    | some err => s.encoderFailed nowMs ("audio write failed: " ++ err)
    | none =>
      let (cadence, run) := s.cadence.advance samples
      pushFrames w nowMs false run.toList { s with cadence }

/-- A call of the pipeline, with what the machine answers during it, or something that
happens to a process. -/
inductive Event
  | apply (c : Conditions) (nowMs : UInt64) (op : StreamOp)
  | poll (c : Conditions) (nowMs : UInt64)
  | pushTick (w : Writes) (nowMs : UInt64) (samples : ℕ)
  | exits (proc : ProcId) (reason : String)
  | writes (proc : ProcId) (text : List Char)

def step (s : Pipeline) : Event → Pipeline
  | .apply c nowMs op => (s.apply c nowMs op).2
  | .poll c nowMs => s.poll c nowMs
  | .pushTick w nowMs samples => s.pushTick w nowMs samples
  | .exits proc reason => { s with outside := s.outside.exits proc reason }
  | .writes proc text => { s with outside := s.outside.writes proc text }

end Pipeline
end JamStream.Stream
