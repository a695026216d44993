import JamStream.Recording.TakeNames

/-! The recorder's thread, behind a queue that refuses ticks when it is full. What was
refused is made up for as silence, out of a count on the submitting side; the history
kept here says which ticks a message accounts for, and which ones none will. -/

namespace JamStream.Recording
open Protocol Engine Runs

def queueTicks : ℕ := 400

variable (X : Encoding)

inductive Msg
  | start (unixSecs : UInt64) (stems : Option (List (MemberId × String)))
  /-- The ticks refused since the last accepted one come first. -/
  | tick (gap : UInt32) (payload : RecordPayload X)
  | stop
  | shutdown

/-- A message with its history: how many ticks had been submitted before it, and how
many of them neither it nor a message ahead of it accounts for. -/
structure Queued where
  msg : Msg X
  calls : ℕ
  owed : ℕ

/-- A take as it was when it was stopped, the ticks submitted meanwhile, and how many of
these were owed to it. -/
structure Stopped where
  take : Take
  calls : List (Stereo X.toAudio)
  owed : ℕ

structure Worker where
  gap : UInt64
  queue : List (Queued X)
  recorder : Recorder
  state : RecordingState
  recording : Bool
  /-- The handle is gone. -/
  dropped : Bool
  -- history from here on
  calls : List (Stereo X.toAudio)
  /-- What has been cut off the gap to fit a message. -/
  cut : ℕ
  startedAt : ℕ
  owed : ℕ
  stopped : List (Stopped X)

variable {X}

namespace Worker

def spawn (X : Encoding) (fails : ℕ → Option String) (uploads : Bool) : Worker X :=
  { gap := 0, queue := [], recorder := .onSink fails uploads, state := .idle, recording := false
    dropped := false, calls := [], cut := 0, startedAt := 0, owed := 0, stopped := [] }

def tickSilence (X : Encoding) : ℕ → Recorder → Recorder
  | 0, r => r
  | n + 1, r => tickSilence X n (r.tick (RecordPayload.default X))

/-- Both a stop and the end of the thread finish the take. -/
def stopTake (w : Worker X) (m : Queued X) : Worker X :=
  { w with
    recorder := w.recorder.stop X
    stopped := match w.recorder.take with
      | none => w.stopped
      | some take =>
        w.stopped ++ [{ take, calls := (w.calls.take m.calls).drop w.startedAt
                        owed := w.owed + m.owed }] }

/-- A start that finds a take running changes nothing but what the take is owed. -/
def handle (w : Worker X) (m : Queued X) : Worker X :=
  match m.msg with
  | .start unixSecs stems =>
    let recorder := w.recorder.start X unixSecs stems
    match w.recorder.take with
    | none => { w with recorder, startedAt := m.calls, owed := 0 }
    | some _ => { w with recorder, owed := w.owed + m.owed }
  | .tick gap payload =>
    { w with recorder := (tickSilence X gap.toNat w.recorder).tick payload
             owed := w.owed + m.owed }
  | .stop | .shutdown => w.stopTake m

def publish (w : Worker X) : Worker X :=
  { w with
    state := w.recorder.state
    recording := match w.recorder.state with
      | .recording _ => true
      | _ => false }

def announces (w : Worker X) (m : Queued X) : Bool :=
  match m.msg with
  | .stop => w.recorder.stopWillUpload
  | _ => false

/-- The thread takes one message off the queue, and publishes where that left it, but for an
upload, which it only announces. -/
def takeOne (w : Worker X) : Worker X :=
  match w.queue with
  | [] => w
  | m :: queue =>
    let handled := { w with queue }.handle m
    if w.announces m then { handled with state := .uploading } else handled.publish

/-- One turn of the thread. An upload that was announced comes to its end in a turn of its own. -/
def work (w : Worker X) : Worker X :=
  if w.state = .uploading then w.publish else w.takeOne

/-- A full queue makes the sender wait until the thread has taken a message. -/
def send (w : Worker X) (m : Queued X) : Worker X :=
  let w := if w.queue.length < queueTicks then w
    else if w.state = .uploading then w.publish.takeOne
    else w.takeOne
  { w with queue := w.queue ++ [m] }

def start (w : Worker X) (unixSecs : UInt64) (stems : Option (List (MemberId × String))) :
    Worker X :=
  { w with gap := 0, cut := 0 }.send
    { msg := .start unixSecs stems, calls := w.calls.length, owed := w.gap.toNat + w.cut }

def stop (w : Worker X) : Worker X :=
  w.send { msg := .stop, calls := w.calls.length, owed := w.gap.toNat + w.cut }

def drop (w : Worker X) : Worker X :=
  { w.send { msg := .shutdown, calls := w.calls.length, owed := w.gap.toNat + w.cut } with
    dropped := true }

/-- A tick that does not fit is added to the gap, never waited for. -/
def submitTick (w : Worker X) (payload : RecordPayload X) : Worker X :=
  let gap := w.gap.toUInt32
  let cut := w.cut + (w.gap.toNat - gap.toNat)
  let calls := w.calls ++ [payload.mix]
  if w.queue.length < queueTicks then
    { w with gap := 0, cut := 0, calls
             queue := w.queue ++
               [{ msg := .tick gap payload, calls := w.calls.length, owed := cut }] }
  else { w with gap := gap.toUInt64 + 1, cut, calls }

end Worker

inductive Action (X : Encoding)
  | start (unixSecs : UInt64) (stems : Option (List (MemberId × String)))
  | submitTick (payload : RecordPayload X)
  | stop
  | drop
  | work

namespace Worker

def step (w : Worker X) : Action X → Worker X
  | .work => w.work
  | .start unixSecs stems => if w.dropped then w else w.start unixSecs stems
  | .submitTick payload => if w.dropped then w else w.submitTick payload
  | .stop => if w.dropped then w else w.stop
  | .drop => if w.dropped then w else w.drop

end Worker
end JamStream.Recording
