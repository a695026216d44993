import JamStream.Engine.Engine
import JamStream.Foundations.OrderedMap

/-! The jitter buffer. Packets come in when they arrive and one pull is made for each tick of the
mix; a playout position walks through the sequence numbers between them. -/

namespace JamStream.Engine
open Protocol Foundations
open Std (ExtTreeMap)

def minTarget : ℕ := 1
def maxTarget : ℕ := 24
/-- Ticks over the target before a frame is dropped to shrink. -/
def shrinkPatience : ℕ := 16
def resetJump : ℕ := 512
def lossWindow : ℕ := 256
def maxBuffered : ℕ := 64
def reanchorPatience : ℕ := 60
def healTicks : ℕ := reanchorPatience + maxTarget

/-- The running mean of the arrivals' jitter, in frames, and the depth it asks for. -/
structure Estimate where
  Mean : Type
  zero : Mean
  note : Mean → ℕ → Mean
  derived : Mean → ℕ

variable {K : Estimate}

abbrev Frames := ExtTreeMap UInt32 Bytes

def firstSeq (frames : Frames) : Option UInt32 := frames.keys.head?

def remove (frames : Frames) (k : UInt32) : Frames := frames.filter fun seq _ => seq ≠ k

def splitOff (frames : Frames) (next : UInt32) : Frames := frames.filter fun seq _ => next ≤ seq

structure JitterBuffer (K : Estimate) where
  frames : Frames
  redundant : Frames
  nextSeq : Option UInt32
  running : Bool
  tick : ℕ
  lastArrival : Option (ℕ × UInt32)
  jitterEwma : K.Mean
  overTicks : ℕ
  heldLast : Bool
  dropPending : Bool
  lost : ℕ
  recovered : ℕ
  late : ℕ
  resurrected : ℕ
  pulled : ℕ
  waiting : ℕ
  reanchors : ℕ
  /-- The number that the last pull concealed, until a frame is played. -/
  concealed : Option UInt32
  droppedSincePull : Bool
  stuckTicks : ℕ
  lossWindow : List Bool

namespace JitterBuffer

def new : JitterBuffer K :=
  { frames := ∅, redundant := ∅, nextSeq := none, running := false, tick := 0, lastArrival := none
    jitterEwma := K.zero, overTicks := 0, heldLast := false, dropPending := false, lost := 0
    recovered := 0, late := 0, resurrected := 0, pulled := 0, waiting := 0, reanchors := 0
    concealed := none, droppedSincePull := false, stuckTicks := 0, lossWindow := [] }

def targetFrames (b : JitterBuffer K) : ℕ :=
  max minTarget (min (K.derived b.jitterEwma + 1) maxTarget)

/-- The anchor goes with all that is stored; the counters and the estimate stay. -/
def reset (b : JitterBuffer K) : JitterBuffer K :=
  { b with
    frames := ∅, redundant := ∅, nextSeq := none, running := false, lastArrival := none
    overTicks := 0, heldLast := false, dropPending := false, concealed := none
    droppedSincePull := false, stuckTicks := 0 }

def reanchor (b : JitterBuffer K) : JitterBuffer K :=
  { b.reset with reanchors := b.reanchors + 1 }

def anchor (b : JitterBuffer K) : Option UInt32 := b.nextSeq.or (b.lastArrival.map Prod.snd)

def jumps (b : JitterBuffer K) (seq : UInt32) : Bool :=
  b.anchor.any fun anchor => resetJump < ((seq.toNat : ℤ) - anchor.toNat).natAbs

def noteArrival (b : JitterBuffer K) (seq : UInt32) : JitterBuffer K :=
  { b with
    jitterEwma :=
      match b.lastArrival with
      | none => b.jitterEwma
      | some prev =>
        K.note b.jitterEwma (((b.tick : ℤ) - prev.1) - ((seq.toNat : ℤ) - prev.2.toNat)).natAbs
    lastArrival := some (b.tick, seq) }

/-- The frame that was concealed a tick ago comes after all, and is played a tick late. -/
def resurrect (b : JitterBuffer K) (packet : MediaPacket) : JitterBuffer K :=
  { b with
    concealed := none
    resurrected := b.resurrected + 1
    frames := b.frames.insert packet.seq packet.payload
    nextSeq := some packet.seq }

def dropLate (b : JitterBuffer K) : JitterBuffer K :=
  { b with late := b.late + 1, droppedSincePull := true }

/-- The copy that a packet carries of the one before it, unless that one is behind. -/
def storeRedundant (b : JitterBuffer K) (packet : MediaPacket) : Frames :=
  match packet.redundant with
  | none => b.redundant
  | some red =>
    if b.nextSeq.all fun next => next ≤ packet.seq - 1 then
      b.redundant.insertIfNew (packet.seq - 1) red
    else b.redundant

def store (b : JitterBuffer K) (packet : MediaPacket) : JitterBuffer K :=
  let stored := { b with
    redundant := b.storeRedundant packet
    frames := b.frames.insertIfNew packet.seq packet.payload }
  if maxBuffered < stored.frames.size then stored.reanchor else stored

/-- Behind the playout position, all but the frame that was concealed last is late. -/
def accept (b : JitterBuffer K) (packet : MediaPacket) : JitterBuffer K :=
  if b.nextSeq.any fun next => packet.seq < next then
    if b.concealed = some packet.seq ∧ b.nextSeq = some (packet.seq + 1) then b.resurrect packet
    else b.dropLate
  else b.store packet

def push (b : JitterBuffer K) (packet : MediaPacket) : JitterBuffer K :=
  ((if b.jumps packet.seq then b.reset else b).noteArrival packet.seq).accept packet

/-- Playout begins at the first number stored, once the depth is there. -/
def started (b : JitterBuffer K) : JitterBuffer K :=
  if b.running = false ∧ b.targetFrames ≤ b.frames.size ∧ b.frames.isEmpty = false then
    { b with nextSeq := firstSeq b.frames, running := true }
  else b

def next (b : JitterBuffer K) : UInt32 := b.nextSeq.getD 0

def holds (b : JitterBuffer K) : Bool :=
  b.frames.size < b.targetFrames && b.frames.contains b.next && !b.heldLast

def drops (b : JitterBuffer K) : Bool := b.dropPending && b.frames.contains b.next

def shrunk (b : JitterBuffer K) : JitterBuffer K :=
  if b.drops then
    { b with
      heldLast := false
      dropPending := false
      frames := remove b.frames b.next
      redundant := remove b.redundant b.next
      nextSeq := some (b.next + 1)
      concealed := none }
  else { b with heldLast := false }

def noteLoss (b : JitterBuffer K) (missed : Bool) : JitterBuffer K :=
  { b with
    pulled := b.pulled + 1
    lossWindow := (b.lossWindow ++ [missed]).drop (b.lossWindow.length + 1 - Engine.lossWindow) }

def deliver (b : JitterBuffer K) : JitterBuffer K × Pull :=
  match b.frames[b.next]? with
  | some payload =>
    ({ b with frames := remove b.frames b.next, concealed := none }.noteLoss false, .frame payload)
  | none =>
    match b.redundant[b.next]? with
    | some copy =>
      ({ b with
          redundant := remove b.redundant b.next, concealed := none, recovered := b.recovered + 1
        }.noteLoss true, .recovered copy)
    | none =>
      ({ b with concealed := some b.next, lost := b.lost + 1 }.noteLoss true, .missing)

/-- The position moves on, and nothing before it is kept. -/
def advance (b : JitterBuffer K) : JitterBuffer K :=
  { b with
    nextSeq := some (b.next + 1)
    frames := splitOff b.frames (b.next + 1)
    redundant := splitOff b.redundant (b.next + 1) }

def noteDepth (b : JitterBuffer K) (target : ℕ) : JitterBuffer K :=
  if target + 1 < b.frames.size then
    if shrinkPatience ≤ b.overTicks + 1 then { b with overTicks := 0, dropPending := true }
    else { b with overTicks := b.overTicks + 1 }
  else { b with overTicks := 0 }

def Played : Pull → Bool
  | .frame _ => true
  | .recovered _ => true
  | _ => false

/-- A concealed pull while packets are dropped as late is a stuck tick, and enough of them in a row
give the position up. -/
def watch (b : JitterBuffer K) (result : Pull) : JitterBuffer K :=
  if result = .missing ∧ b.droppedSincePull = true then
    if reanchorPatience ≤ b.stuckTicks + 1 then b.reanchor
    else { b with stuckTicks := b.stuckTicks + 1 }
  else if Played result then { b with droppedSincePull := false, stuckTicks := 0 }
  else b

def play (b : JitterBuffer K) : JitterBuffer K × Pull :=
  ((b.shrunk.deliver.1.advance.noteDepth b.targetFrames).watch b.shrunk.deliver.2,
    b.shrunk.deliver.2)

def ready (b : JitterBuffer K) : JitterBuffer K := { b with tick := b.tick + 1 }.started

def pull (b : JitterBuffer K) : JitterBuffer K × Pull :=
  if b.ready.running = false then
    ({ b.ready with waiting := b.ready.waiting + 1 }, .waiting)
  else if b.ready.holds then ({ b.ready with heldLast := true }, .missing)
  else b.ready.play

structure Stats where
  depthFrames : ℕ
  targetFrames : ℕ
  lost : ℕ
  recovered : ℕ
  late : ℕ
  resurrected : ℕ
  pulled : ℕ
  waiting : ℕ
  reanchors : ℕ

def stats (b : JitterBuffer K) : Stats :=
  { depthFrames := b.frames.size, targetFrames := b.targetFrames, lost := b.lost
    recovered := b.recovered, late := b.late, resurrected := b.resurrected, pulled := b.pulled
    waiting := b.waiting, reanchors := b.reanchors }

structure Window where
  pulled : ℕ
  lost : ℕ
  recovered : ℕ

def checkedSub (a b : ℕ) : Option ℕ := if b ≤ a then some (a - b) else none

def Window.between (prev now : Stats) : Option Window := do
  let pulled ← checkedSub now.pulled prev.pulled
  let lost ← checkedSub now.lost prev.lost
  let recovered ← checkedSub now.recovered prev.recovered
  some { pulled, lost, recovered }

end JitterBuffer
end JamStream.Engine
