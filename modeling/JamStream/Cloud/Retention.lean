import JamStream.Cloud.Storage
import JamStream.Foundations.Evict

/-! How long a recording is kept, and the cap on a bucket's lifecycle rules. -/

namespace JamStream.Cloud

def ruleIdBase : String := "jamstream-recording-retention"

def s3MaxLifecycleRules : ℕ := 1000
def gcsMaxLifecycleRules : ℕ := 100
def abortIncompleteDays : ℕ := 1

inductive Retention
  | keepForever
  | days7
  | days30
  | days90
deriving DecidableEq

def Retention.days : Retention → Option ℕ
  | .keepForever => none
  | .days7 => some 7
  | .days30 => some 30
  | .days90 => some 90

def startsWith (s start : String) : Bool := start.toList.isPrefixOf s.toList

/-- Room for one more rule, at the expense of JamStream's own only and the oldest first. -/
def makeRoom {α : Type} (ours : α → Bool) (maxRules : ℕ) (kept : List α) : Option (List α) :=
  Foundations.Evict.makeRoom ours maxRules kept.length kept

end JamStream.Cloud
