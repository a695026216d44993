import JamStream.Protocol.ControlMsg

/-! The bounded ring of log lines the server process fills and the core sends to
the host. Another thread writes it, so between two calls of the core any number
of lines may have arrived. -/

namespace JamStream.Session
open Protocol

def logTailLines : ℕ := 128

/-- The longest prefix of whole characters within a number of bytes. -/
def fitHead : ℕ → List Char → List Char
  | _, [] => []
  | cap, c :: cs => if c.utf8Size ≤ cap then c :: fitHead (cap - c.utf8Size) cs else []

def fitServerLogLine (line : String) : String :=
  String.ofList (fitHead maxServerLogLine line.toList)

structure LogTail where
  lines : List String
  dropped : UInt64
deriving DecidableEq

namespace LogTail

def new : LogTail := { lines := [], dropped := 0 }

def push (t : LogTail) (line : String) : LogTail :=
  if logTailLines ≤ t.lines.length then
    { lines := t.lines.tail ++ [fitServerLogLine line], dropped := t.dropped + 1 }
  else { t with lines := t.lines ++ [fitServerLogLine line] }

/-- What the core sends next: a word on what was lost, or else the oldest line,
which leaves the ring here. -/
def next (t : LogTail) : Option (LogTail × String) :=
  if 0 < t.dropped then
    some (t, "[" ++ toString t.dropped.toNat ++ " earlier server log line(s) dropped]")
  else
    match t.lines with
    | [] => none
    | line :: rest => some ({ t with lines := rest }, line)

def clearDropped (t : LogTail) : LogTail := { t with dropped := 0 }

end LogTail
end JamStream.Session
