import Mathlib

/-! JSON values as far as programs look into them: members by name, elements, texts. -/

namespace JamStream.Foundations

inductive Json
  | null
  | bool (b : Bool)
  | number (n : Int)
  | float (bits : UInt64)
  | string (s : String)
  | array (elements : List Json)
  | object (members : List (String × Json))

namespace Json

def get : Json → String → Option Json
  | object members, key => (members.find? fun m => m.1 = key).map Prod.snd
  | _, _ => none

/-- A member that is not there reads as null. -/
def index (j : Json) (key : String) : Json := (j.get key).getD null

def asArray : Json → Option (List Json)
  | array elements => some elements
  | _ => none

def asStr : Json → Option String
  | string s => some s
  | _ => none

def isNumber : Json → Bool
  | number _ | float _ => true
  | _ => false

def size : Json → ℕ
  | object members => members.length
  | _ => 0

end Json
end JamStream.Foundations
