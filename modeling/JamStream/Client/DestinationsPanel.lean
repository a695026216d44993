import JamStream.Session.Control
import JamStream.Stream.Pipeline

/-! The host's sheet of platforms. Ids are minted here; what a destination is doing is read off
the last report of the server, and the keychain is asked as the host presses. -/

namespace JamStream.Client
open Protocol

def refusal (key : String) : Option String :=
  if key.isEmpty then some "paste the stream key first"
  else if maxStreamKeyLen < key.utf8ByteSize then
    some ("that key is " ++ toString key.utf8ByteSize ++ " characters; no platform uses one past "
      ++ toString maxStreamKeyLen)
  else none

structure PlatformRow where
  platform : StreamPlatform
  saved : Bool
  entering : Bool
  keyInput : String
  remember : Bool
  /-- The id minted for the platform, once the server was asked for it. -/
  id : Option DestinationId

def PlatformRow.closeEntry (r : PlatformRow) : PlatformRow :=
  { r with entering := false, keyInput := "" }

/-- What the last report of the server says. -/
structure StreamView where
  destinations : List DestinationStatus
  unavailable : Bool

def StreamView.ofPlatform (view : StreamView) (platform : StreamPlatform) :
    Option DestinationStatus :=
  view.destinations.find? (·.platform = platform)

structure DestinationsPanel where
  rows : List PlatformRow
  nextId : UInt16
  error : Option String

namespace DestinationsPanel

def new (saved : StreamPlatform → Bool) : DestinationsPanel :=
  { rows := [.twitch, .youTube].map fun platform =>
      { platform, saved := saved platform, entering := false, keyInput := "", remember := true
        id := none }
    nextId := 0
    error := none }

def mintId (p : DestinationsPanel) : DestinationsPanel × DestinationId :=
  ({ p with nextId := p.nextId + 1 }, p.nextId)

def onRow (p : DestinationsPanel) (index : ℕ) (f : PlatformRow → PlatformRow) : DestinationsPanel :=
  { p with rows := p.rows.modify index f }

/-- The id of what is configured for a row: the server's word for it, or the one it was asked
for. -/
def configuredId (row : PlatformRow) (view : StreamView) : Option DestinationId :=
  match view.ofPlatform row.platform with
  | some status => some status.id
  | none => row.id

def configure (p : DestinationsPanel) (index : ℕ) (platform : StreamPlatform) (key : String) :
    DestinationsPanel × List StreamOp :=
  match refusal key with
  | some reason => ({ p with error := some reason }, [])
  | none =>
    let (p, id) := p.mintId
    ({ p.onRow index fun row => { row with id := some id }.closeEntry with error := none },
      [.addDestination id platform key])

/-- The key pane's save; `stored` is what the keychain says to being given the key. -/
def saveTypedKey (p : DestinationsPanel) (index : ℕ) (row : PlatformRow)
    (stored : Except String Unit) : DestinationsPanel × List StreamOp :=
  let typed := Session.trim row.keyInput
  match refusal typed with
  | some reason => ({ p with error := some reason }, [])
  | none =>
    let p :=
      if row.remember then
        match stored with
        | .ok () => p.onRow index fun row => { row with saved := true }
        | .error err =>
          let reason := "the key works for this session but saving it on this computer failed: "
          { p with error := some (reason ++ err) }
      else p
    p.configure index row.platform typed

def useSavedKey (p : DestinationsPanel) (index : ℕ) (row : PlatformRow) (kept : Option String) :
    DestinationsPanel × List StreamOp :=
  match kept with
  | some key => p.configure index row.platform key
  | none =>
    ({ p.onRow index fun row => { row with saved := false, entering := true } with
        error := some "the saved key is gone from this computer's keychain; paste it again" }, [])

def forgetKey (p : DestinationsPanel) (index : ℕ) : DestinationsPanel :=
  { p.onRow index fun row => { row with saved := false } with error := none }

def remove (p : DestinationsPanel) (index : ℕ) (id : DestinationId) :
    DestinationsPanel × List StreamOp :=
  ({ p.onRow index fun row => { row with id := none } with error := none },
    [.removeDestination id])

def enteringKey (p : DestinationsPanel) : Bool := p.rows.any (·.entering)

def closeKeyEntry (p : DestinationsPanel) : DestinationsPanel :=
  { p with
    rows := p.rows.map fun row => if row.entering then row.closeEntry else row
    error := if p.enteringKey then none else p.error }

def configuredCount (p : DestinationsPanel) (view : StreamView) : ℕ :=
  p.rows.countP fun row => (configuredId row view).isSome

def running (view : StreamView) : Bool :=
  view.destinations.any fun status => status.state = .live ∨ status.state = .connecting

end DestinationsPanel

inductive Press
  | remove (index : ℕ)
  | useSaved (index : ℕ) (kept : Option String)
  | forget (index : ℕ)
  | toggleEntry (index : ℕ)
  | type (index : ℕ) (text : String)
  | remember (index : ℕ) (on : Bool)
  | save (index : ℕ) (stored : Except String Unit)
  | cancel (index : ℕ)
  | escape
  | goLive
  | stopStreaming

namespace DestinationsPanel

/-- A button that is not shown, or is off, does nothing. -/
def press (p : DestinationsPanel) (view : StreamView) : Press → DestinationsPanel × List StreamOp
  | .remove index =>
    match p.rows[index]? with
    | none => (p, [])
    | some row =>
      match configuredId row view with
      | some id => p.remove index id
      | none => (p, [])
  | .useSaved index kept =>
    match p.rows[index]? with
    | none => (p, [])
    | some row =>
      if (configuredId row view).isNone ∧ row.saved ∧ !view.unavailable then
        p.useSavedKey index row kept
      else (p, [])
  | .forget index =>
    match p.rows[index]? with
    | none => (p, [])
    | some row =>
      if (configuredId row view).isNone ∧ row.saved then (p.forgetKey index, []) else (p, [])
  | .toggleEntry index =>
    match p.rows[index]? with
    | none => (p, [])
    | some row =>
      if (configuredId row view).isNone ∧ !row.saved ∧ !view.unavailable then
        ({ p.onRow index fun row => { row.closeEntry with entering := !row.entering } with
            error := none }, [])
      else (p, [])
  | .type index text =>
    (p.onRow index fun row => if row.entering then { row with keyInput := text } else row, [])
  | .remember index on =>
    (p.onRow index fun row => if row.entering then { row with remember := on } else row, [])
  | .save index stored =>
    match p.rows[index]? with
    | none => (p, [])
    | some row => if row.entering then p.saveTypedKey index row stored else (p, [])
  | .cancel index =>
    match p.rows[index]? with
    | none => (p, [])
    | some row =>
      if row.entering then ({ p.onRow index PlatformRow.closeEntry with error := none }, [])
      else (p, [])
  | .escape => (p.closeKeyEntry, [])
  | .goLive =>
    if !running view ∧ 0 < p.configuredCount view ∧ !view.unavailable then (p, [.start])
    else (p, [])
  | .stopStreaming => if running view then (p, [.stop]) else (p, [])

/-- A press sends no key and mints nothing, or it sends the key of one platform under the next
id. -/
def Sends (p : DestinationsPanel) (r : DestinationsPanel × List StreamOp) : Prop :=
  (r.1.nextId = p.nextId ∧ ∀ op ∈ r.2, ∀ id platform key, op ≠ .addDestination id platform key) ∨
    (r.1.nextId = p.nextId + 1 ∧ ∃ platform key, r.2 = [.addDestination p.nextId platform key])

section
variable {p : DestinationsPanel}

theorem sends_nothing {q : DestinationsPanel} (h : q.nextId = p.nextId) : p.Sends (q, []) :=
  .inl ⟨h, fun _ hop => absurd hop List.not_mem_nil⟩

theorem sends_configure {q : DestinationsPanel} (h : q.nextId = p.nextId) (index : ℕ)
    (platform : StreamPlatform) (key : String) : p.Sends (q.configure index platform key) := by
  unfold configure
  rcases refusal key with _ | reason
  · refine .inr ⟨?_, platform, key, ?_⟩
    · exact congrArg (· + 1) h
    · rw [← h]
      rfl
  · exact sends_nothing h

theorem sends_saveTypedKey (index : ℕ) (row : PlatformRow) (stored : Except String Unit) :
    p.Sends (p.saveTypedKey index row stored) := by
  unfold saveTypedKey
  simp only
  rcases refusal (Session.trim row.keyInput) with _ | reason
  · apply sends_configure
    rcases row.remember with _ | _
    · rfl
    · rcases stored with err | _
      · rfl
      · rfl
  · exact sends_nothing rfl

theorem sends_useSavedKey (index : ℕ) (row : PlatformRow) (kept : Option String) :
    p.Sends (p.useSavedKey index row kept) := by
  rcases kept with _ | key
  · exact sends_nothing rfl
  · exact sends_configure rfl index row.platform key

theorem sends_remove (index : ℕ) (id : DestinationId) : p.Sends (p.remove index id) := by
  refine .inl ⟨rfl, fun op hop id platform key h => ?_⟩
  rw [List.mem_singleton.mp hop] at h
  exact nomatch h

theorem sends_press (p : DestinationsPanel) (view : StreamView) (pr : Press) :
    p.Sends (p.press view pr) := by
  cases pr with
  | remove index =>
    rw [press]
    rcases p.rows[index]? with _ | row
    · exact sends_nothing rfl
    · simp only
      rcases configuredId row view with _ | id
      · exact sends_nothing rfl
      · exact sends_remove index id
  | useSaved index kept =>
    rw [press]
    rcases p.rows[index]? with _ | row
    · exact sends_nothing rfl
    · simp only
      split_ifs
      · exact sends_useSavedKey index row kept
      · exact sends_nothing rfl
  | forget index =>
    rw [press]
    rcases p.rows[index]? with _ | row
    · exact sends_nothing rfl
    · simp only
      split_ifs
      · exact sends_nothing rfl
      · exact sends_nothing rfl
  | toggleEntry index =>
    rw [press]
    rcases p.rows[index]? with _ | row
    · exact sends_nothing rfl
    · simp only
      split_ifs
      · exact sends_nothing rfl
      · exact sends_nothing rfl
  | type index text => exact sends_nothing rfl
  | remember index on => exact sends_nothing rfl
  | save index stored =>
    rw [press]
    rcases p.rows[index]? with _ | row
    · exact sends_nothing rfl
    · simp only
      split_ifs
      · exact sends_saveTypedKey index row stored
      · exact sends_nothing rfl
  | cancel index =>
    rw [press]
    rcases p.rows[index]? with _ | row
    · exact sends_nothing rfl
    · simp only
      split_ifs
      · exact sends_nothing rfl
      · exact sends_nothing rfl
  | escape => exact sends_nothing rfl
  | goLive =>
    rw [press]
    split_ifs
    · exact .inl ⟨rfl, by simp⟩
    · exact sends_nothing rfl
  | stopStreaming =>
    rw [press]
    split_ifs
    · exact .inl ⟨rfl, by simp⟩
    · exact sends_nothing rfl

end

end DestinationsPanel
end JamStream.Client
