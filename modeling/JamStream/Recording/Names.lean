import JamStream.Recording.Flac
import JamStream.Session.Control

/-! How the files of a take are named: from the minute it starts in, and from the name
of the musician. -/

namespace JamStream.Recording
open Protocol Session

def civilFromDays (days : ℤ) : ℤ × ℕ × ℕ :=
  let z := days + 719468
  let era := z / 146097
  let doe := z % 146097
  let yoe := (doe - doe / 1460 + doe / 36524 - doe / 146096) / 365
  let doy := doe - (365 * yoe + yoe / 4 - yoe / 100)
  let mp := (5 * doy + 2) / 153
  let d := (doy - (153 * mp + 2) / 5 + 1).toNat
  let m := (if mp < 10 then mp + 3 else mp - 9).toNat
  (yoe + era * 400 + (if m ≤ 2 then 1 else 0), m, d)

def padded (width n : ℕ) : List Char := (Nat.toDigits 10 n).leftpad width '0'

/-- `jamstream-YYYY-MM-DD-HHMM` in UTC. No second goes in. -/
def takeBase (unixSecs : UInt64) : String :=
  let date := civilFromDays (unixSecs.toNat / 86400 : ℕ)
  let secs := unixSecs.toNat % 86400
  String.ofList ("jamstream-".toList ++ padded 4 date.1.toNat ++ '-' :: padded 2 date.2.1 ++
    '-' :: padded 2 date.2.2 ++ '-' :: padded 2 (secs / 3600) ++ padded 2 (secs % 3600 / 60))

def sanitize (X : Encoding) (name : String) : String :=
  String.ofList (name.toList.filterMap fun c =>
    if X.isAlphanumeric c || c == '-' || c == '_' then some c
    else if isWhitespace c then some '-'
    else none)

/-- The id only goes in where two members would share a file. -/
def stemName (X : Encoding) (roster : List (MemberId × String)) (used : List String)
    (id : MemberId) : String :=
  let given := (roster.find? fun e => e.1 = id).map fun e => sanitize X e.2
  let name := (given.filter fun name => !name.isEmpty).getD ("member-" ++ toString id.toNat)
  if used.contains name then name ++ "-" ++ toString id.toNat else name

def objectName (base part : String) : String := base ++ "-" ++ part ++ ".flac"

end JamStream.Recording
