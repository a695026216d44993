import Mathlib

/-! The names of stored objects: one sanitized component at a time, under one prefix. -/

namespace JamStream.Cloud

def recordingPrefix : String := "jamstream/recordings"

/-- `CON`, `PRN`, `AUX`, `NUL`, `COM1` to `COM9` and `LPT1` to `LPT9`, in any case and with
any extension. -/
def reservedDeviceName (component : List Char) : Bool :=
  let stem := (component.takeWhile (· ≠ '.')).map Char.toLower
  [['c', 'o', 'n'], ['p', 'r', 'n'], ['a', 'u', 'x'], ['n', 'u', 'l']].contains stem ||
    match stem with
    | [a, b, c, d] => [['c', 'o', 'm'], ['l', 'p', 't']].contains [a, b, c] && '1' ≤ d && d ≤ '9'
    | _ => false

def sanitizeChar (out : List Char) (c : Char) : List Char :=
  if c = '.' then
    if !out.isEmpty && out.getLast? ≠ some '.' then out ++ ['.'] else out
  else if c.isAlphanum || c = '-' || c = '_' then out ++ [c]
  else out ++ ['-']

def sanitizeComponent (raw : String) : String :=
  let out := raw.toList.foldl sanitizeChar []
  let out := if out.getLast? = some '.' then out.dropLast else out
  if out.all fun c => c = '-' || c = '.' || c = '_' then "unnamed"
  else if reservedDeviceName out then String.ofList ('-' :: out)
  else String.ofList out

def sessionPrefix (sessionId : String) : String :=
  recordingPrefix ++ "/" ++ sanitizeComponent sessionId ++ "/"

end JamStream.Cloud
