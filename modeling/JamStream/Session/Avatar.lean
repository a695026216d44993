import JamStream.Foundations.OrderedMap
import JamStream.Protocol.ControlMsg

/-! Avatar plumbing: a bounded content-addressed cache, the reassembly of a chunk
train, and the cursor of one being sent. The content hash is a parameter. -/

namespace JamStream.Session
open Protocol
open Std (ExtTreeMap)

instance avatarHash_transOrd : Std.TransOrd AvatarHash := inferInstance

def avatarChunksPerPoll : ℕ := 2

def chunkTotal (len : ℕ) : UInt16 :=
  UInt16.ofNat ((len + avatarChunkBytes - 1) / avatarChunkBytes)

structure CacheEntry where
  bytes : Bytes
  lastRef : UInt64

structure AvatarCache where
  maxBytes : ℕ
  totalBytes : ℕ
  clock : UInt64
  entries : ExtTreeMap AvatarHash CacheEntry

namespace AvatarCache

def new (maxBytes : ℕ) : AvatarCache := { maxBytes, totalBytes := 0, clock := 0, entries := ∅ }

def contains (c : AvatarCache) (hash : AvatarHash) : Bool := c.entries.contains hash

def get (c : AvatarCache) (hash : AvatarHash) : Option Bytes :=
  c.entries[hash]?.map CacheEntry.bytes

def touch (c : AvatarCache) (hash : AvatarHash) : AvatarCache :=
  { c with
    clock := c.clock + 1
    entries := c.entries.modify hash fun e => { e with lastRef := c.clock + 1 } }

def victim (c : AvatarCache) (hash : AvatarHash) (pinned : List AvatarHash) :
    Option (AvatarHash × CacheEntry) :=
  (c.entries.toList.filter fun e => e.1 ≠ hash && !pinned.contains e.1).argmin
    fun e => e.2.lastRef.toNat

/-- Each round removes an entry, so their number is fuel enough. -/
def evict (hash : AvatarHash) (pinned : List AvatarHash) : ℕ → AvatarCache → AvatarCache
  | 0, c => c
  | n + 1, c =>
    if c.totalBytes ≤ c.maxBytes then c
    else
      match c.victim hash pinned with
      | none => c
      | some (v, e) => evict hash pinned n { c with
          totalBytes := c.totalBytes - e.bytes.length
          entries := c.entries.erase v }

def insert (c : AvatarCache) (hash : AvatarHash) (bytes : Bytes) (pinned : List AvatarHash) :
    AvatarCache :=
  let c :=
    if c.contains hash then c.touch hash
    else { c with
      clock := c.clock + 1
      totalBytes := c.totalBytes + bytes.length
      entries := c.entries.insert hash { bytes, lastRef := c.clock + 1 } }
  evict hash pinned c.entries.size c

end AvatarCache

structure AvatarRx where
  hash : AvatarHash
  expectedLen : Option UInt32
  total : Option UInt16
  next : UInt16
  buf : Bytes

inductive RxStep
  | more
  | done (bytes : Bytes)

namespace AvatarRx

def new (hash : AvatarHash) (expectedLen : Option UInt32) : AvatarRx :=
  { hash, expectedLen, total := none, next := 0, buf := [] }

def push (avatarHash : Bytes → AvatarHash) (rx : AvatarRx) (index total : UInt16) (data : Bytes) :
    AvatarRx × Except String RxStep :=
  if total = 0 ∨ chunkTotal maxAvatarBytes < total then
    (rx, .error "avatar chunk total out of range")
  else if rx.expectedLen.any fun len => total ≠ chunkTotal len.toNat then
    (rx, .error "avatar chunk total mismatch")
  else if rx.total.any fun t => t ≠ total then
    (rx, .error "avatar chunk total changed mid-train")
  else
    let rx := { rx with total := some total }
    if index ≠ rx.next then (rx, .error "avatar chunk out of order")
    else
      let last := index + 1 = total
      if ¬(if last then 1 ≤ data.length ∧ data.length ≤ avatarChunkBytes
          else data.length = avatarChunkBytes) then
        (rx, .error "avatar chunk size invalid")
      else
        let rx := { rx with buf := rx.buf ++ data, next := rx.next + 1 }
        if ¬last then (rx, .ok .more)
        else if rx.expectedLen.any fun len => rx.buf.length ≠ len.toNat then
          (rx, .error "avatar length mismatch")
        else if avatarHash rx.buf ≠ rx.hash then (rx, .error "avatar hash mismatch")
        else ({ rx with buf := [] }, .ok (.done rx.buf))

end AvatarRx

/-- One outbound train: a cursor over cached bytes. -/
structure AvatarTx where
  hash : AvatarHash
  next : UInt16
deriving DecidableEq

namespace AvatarTx

def new (hash : AvatarHash) : AvatarTx := { hash, next := 0 }

def nextChunk (tx : AvatarTx) (bytes : Bytes) : AvatarTx × Option ControlMsg :=
  let total := chunkTotal bytes.length
  if total ≤ tx.next then (tx, none)
  else
    ({ tx with next := tx.next + 1 },
      some (.avatarChunk tx.hash tx.next total
        ((bytes.drop (tx.next.toNat * avatarChunkBytes)).take avatarChunkBytes)))

end AvatarTx
end JamStream.Session
