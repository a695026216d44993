import JamStream.Protocol.ControlMsg

/-! A streaming upload of one object. The sink queues chunks; a task of its own takes
them off the queue, fills parts from them and drives the backend, one call or one
message at a time, in any order with what the sink is asked to do. -/

namespace JamStream.Cloud
open Protocol

/-- Chunks queued ahead of the upload before a write waits. -/
def chunkQueue : ℕ := 16

def maxParts : ℕ := 10000

inductive BackendCall
  | putSingle (body : Bytes)
  | begin
  | sendPart (number offset : ℕ) (last : Bool) (body : Bytes)
  | finish
  | abort
deriving DecidableEq

inductive Msg
  | chunk (chunk : Bytes)
  | finish
deriving DecidableEq

/-- Where the driver waits: for a part of the source, or in front of a backend call. -/
inductive Driver
  | first
  | second (first : Bytes)
  | putSingle (body : Bytes)
  | begin (first second : Bytes)
  | sendPart (number offset : ℕ) (current next : Bytes)
  | lookahead (number offset : ℕ) (current : Bytes)
  | finish
  | abort (err : String)
  | done (outcome : Except String Unit)

/-- The sender's end: `finish` consumes it, and so does an abort or a drop. -/
inductive Handle
  | held
  | finished
  | gone
deriving DecidableEq

structure ObjectSink where
  handle : Handle
  queue : List Msg
  /-- The source's own buffer, and whether it has seen the finish. -/
  buf : Bytes
  finished : Bool
  driver : Driver
  partSize : ℕ
  /-- Which backend calls fail, by their number, and with what. -/
  fails : ℕ → Option String
  log : List (BackendCall × Option String)
  /-- The chunks that were taken (history). -/
  pushed : List Bytes

namespace ObjectSink

def opened (fails : ℕ → Option String) (partSize : ℕ) : ObjectSink :=
  { handle := .held, queue := [], buf := [], finished := false, driver := .first
    partSize := max partSize 1, fails, log := [], pushed := [] }

/-- The receiver lives until the task returns. -/
def stopped (s : ObjectSink) : Bool :=
  match s.driver with
  | .done _ => true
  | _ => false

/-- Nothing comes of a write while the queue is full, or once the upload has failed. -/
def write (s : ObjectSink) (chunk : Bytes) : ObjectSink :=
  if s.handle = .held ∧ !chunk.isEmpty ∧ !s.stopped ∧ s.queue.length < chunkQueue then
    { s with queue := s.queue ++ [.chunk chunk], pushed := s.pushed ++ [chunk] }
  else s

/-- Waits for room, but not for a task that has stopped. -/
def finish (s : ObjectSink) : ObjectSink :=
  if s.handle = .held then
    if s.stopped then { s with handle := .finished }
    else if s.queue.length < chunkQueue then
      { s with handle := .finished, queue := s.queue ++ [.finish] }
    else s
  else s

/-- Both an abort and a drop only let go of the sender. -/
def abort (s : ObjectSink) : ObjectSink :=
  if s.handle = .held then { s with handle := .gone } else s

/-- One message towards the next part, or the part when it is full or the input over. -/
def nextPart (s : ObjectSink) (ready : Bytes → Driver) (failed : String → Driver) : ObjectSink :=
  if !s.finished && decide (s.buf.length < s.partSize) then
    match s.queue with
    | .chunk chunk :: queue => { s with queue, buf := s.buf ++ chunk }
    | .finish :: queue => { s with queue, finished := true }
    | [] =>
      if s.handle = .held then s
      else { s with driver := failed "recording sink dropped mid-upload" }
  else
    { s with buf := s.buf.drop s.partSize, driver := ready (s.buf.take s.partSize) }

def call (s : ObjectSink) (c : BackendCall) (next : Except String Unit → Driver) : ObjectSink :=
  let err := s.fails s.log.length
  { s with
    log := s.log ++ [(c, err)]
    driver := next (match err with
      | none => .ok ()
      | some e => .error e) }

def capped (partSize : ℕ) : String :=
  "recording exceeds " ++ toString maxParts ++ " parts at " ++ toString partSize ++
    " bytes each; raise the part size"

def drive (s : ObjectSink) : ObjectSink :=
  match s.driver with
  | .first => s.nextPart .second fun e => .done (.error e)
  | .second first =>
    s.nextPart (fun second => if second.isEmpty then .putSingle first else .begin first second)
      fun e => .done (.error e)
  | .putSingle body => s.call (.putSingle body) .done
  | .begin first second =>
    s.call .begin fun
      | .ok () => .sendPart 1 0 first second
      | .error e => .done (.error e)
  | .sendPart number offset current next =>
    if maxParts < number then { s with driver := .abort (capped s.partSize) }
    else s.call (.sendPart number offset next.isEmpty current) fun
      | .ok () =>
        if next.isEmpty then .finish else .lookahead (number + 1) (offset + current.length) next
      | .error e => .abort e
  | .lookahead number offset current =>
    s.nextPart (fun next => .sendPart number offset current next) .abort
  | .finish =>
    s.call .finish fun
      | .ok () => .done (.ok ())
      | .error e => .abort e
  | .abort err => s.call .abort fun _ => .done (.error err)
  | .done _ => s

end ObjectSink

inductive Event
  | write (chunk : Bytes)
  | finish
  | abort
  | drive

def ObjectSink.step (s : ObjectSink) : Event → ObjectSink
  | .write chunk => s.write chunk
  | .finish => s.finish
  | .abort => s.abort
  | .drive => s.drive

end JamStream.Cloud
