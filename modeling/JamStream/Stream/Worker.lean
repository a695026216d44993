import JamStream.Foundations.Runs
import JamStream.Foundations.Stretches
import JamStream.Stream.Status

/-! The broadcast's thread, behind a queue that refuses ticks when it is full. What was
refused is made up for as silence, out of a count on the submitting side that goes with the
next tick that fits. The history kept here is what was submitted and what the pipeline got:
ticks as their own audio or as silence, and the starts and stops between them. -/

namespace JamStream.Stream
open Protocol Foundations
open Runs hiding run

def queueTicks : ℕ := 200

def tickSamples : ℕ := 120

variable {A : Type*}

inductive Msg (A : Type*)
  /-- The ticks refused since the last accepted one come first. -/
  | tick (nowMs : UInt64) (gap : UInt32) (audio : A)
  | roster
  | op (nowMs : UInt64) (op : StreamOp)
  | beat (nowMs : UInt64)
  | shutdown

/-- What the machine answers while one message is dealt with. -/
structure Answers where
  conditions : Conditions
  writes : ℕ → Writes

structure StreamWorker (A : Type*) where
  gap : UInt64
  queue : List (Msg A)
  pipeline : Pipeline
  started : Bool
  status : List DestinationStatus
  /-- The handle is gone. -/
  dropped : Bool
  -- history from here on
  calls : List (Mark (Option A))
  heard : List (Mark (Option A))
  /-- Ticks refused since the last accepted one, and those of them that belong to the
  stream going on. -/
  refused : ℕ
  lost : ℕ

/-- The mark a host's request leaves. -/
def opMarks : StreamOp → List (Mark (Option A))
  | .start => [.opens]
  | .stop => [.closes]
  | _ => []

/-- What a message has pushed into the pipeline, silence and then its own audio. -/
def Msg.pushes : Msg A → List (Option A)
  | .tick _ gap audio => List.replicate gap.toNat none ++ [some audio]
  | _ => []

def Msg.marks (m : Msg A) : List (Mark (Option A)) :=
  match m with
  | .tick .. => m.pushes.map .item
  | .op _ request => opMarks request
  | _ => []

namespace StreamWorker

def spawn (A : Type*) (cfg : StreamConfig) : StreamWorker A :=
  { gap := 0, queue := [], pipeline := .new cfg, started := false, status := []
    dropped := false, calls := [], heard := [], refused := 0, lost := 0 }

def pushAll (e : Answers) (nowMs : UInt64) : List (Option A) → ℕ → Pipeline → Pipeline
  | [], _, p => p
  | _ :: rest, n, p => pushAll e nowMs rest (n + 1) (p.pushTick (e.writes n) nowMs tickSamples)

def handle (w : StreamWorker A) (e : Answers) (m : Msg A) : StreamWorker A :=
  match m with
  | .tick nowMs .. =>
    { w with
      pipeline := (pushAll e nowMs m.pushes 0 w.pipeline).poll e.conditions nowMs
      heard := w.heard ++ m.marks }
  | .roster => w
  | .op nowMs op =>
    let pipeline := (w.pipeline.apply e.conditions nowMs op).2
    { w with pipeline, started := pipeline.started, heard := w.heard ++ m.marks }
  | .beat nowMs => { w with pipeline := w.pipeline.poll e.conditions nowMs }
  | .shutdown => { w with started := false }

/-- The thread takes one message off the queue, and publishes where that left it; the last
one ends it. -/
def work (rates : Rates) (w : StreamWorker A) (e : Answers) : StreamWorker A :=
  match w.queue with
  | [] => w
  | .shutdown :: queue => { w with queue }.handle e .shutdown
  | m :: queue =>
    let w := { w with queue }.handle e m
    { w with status := w.pipeline.status rates }

/-- A full queue makes the sender wait: nothing of the call has happened yet. -/
def send (w : StreamWorker A) (m : Msg A) (marks : List (Mark (Option A))) : StreamWorker A :=
  if w.queue.length < queueTicks then
    { w with queue := w.queue ++ [m], calls := w.calls ++ marks }
  else w

/-- A tick that does not fit is added to the gap, never waited for. -/
def submitTick (w : StreamWorker A) (nowMs : UInt64) (audio : A) : StreamWorker A :=
  let gap := w.gap.toUInt32
  if w.queue.length < queueTicks then
    { w with
      gap := 0, refused := 0, lost := 0
      queue := w.queue ++ [.tick nowMs gap audio]
      calls := w.calls ++ [.item (some audio)] }
  else
    { w with
      gap := gap.toUInt64 + 1, refused := w.refused + 1, lost := w.lost + 1
      calls := w.calls ++ [.item none] }

def apply (w : StreamWorker A) (nowMs : UInt64) (op : StreamOp) : StreamWorker A :=
  let fresh := op = .start ∧ (Stretches.of w.calls).current = none
  if w.queue.length < queueTicks then
    { w.send (.op nowMs op) (opMarks op) with
      lost := if fresh then 0 else w.lost }
  else w

end StreamWorker

inductive Action (A : Type*)
  | submitTick (nowMs : UInt64) (audio : A)
  | apply (nowMs : UInt64) (op : StreamOp)
  | submitRoster
  | beat (nowMs : UInt64)
  | drop
  | work (e : Answers)

namespace StreamWorker

def drop (w : StreamWorker A) : StreamWorker A :=
  if w.queue.length < queueTicks then { w.send .shutdown [] with dropped := true } else w

def step (rates : Rates) (w : StreamWorker A) : Action A → StreamWorker A
  | .work e => w.work rates e
  | .submitTick nowMs audio => if w.dropped then w else w.submitTick nowMs audio
  | .apply nowMs op => if w.dropped then w else w.apply nowMs op
  | .submitRoster => if w.dropped then w else w.send .roster []
  | .beat nowMs => if w.dropped then w else w.send (.beat nowMs) []
  | .drop => if w.dropped then w else w.drop

end StreamWorker
end JamStream.Stream
