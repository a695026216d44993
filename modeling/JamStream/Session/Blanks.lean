import JamStream.Foundations.Trim
import JamStream.Session.Control

/-! What is trimmed of a text, and where no blank stands. -/

namespace JamStream.Session
open Foundations

theorem trim_eq (s : String) : trim s = String.ofList (trimBy isWhitespace s.toList) := rfl

theorem trim_trim (s : String) : trim (trim s) = trim s := by
  rw [trim_eq, trim_eq, String.toList_ofList, trimBy_trimBy]

theorem isWhitespace_of_range {c : Char} (hlow : 43 ≤ c.toNat) (hhigh : c.toNat ≤ 122) :
    isWhitespace c = false := by
  simp only [isWhitespace, List.contains_eq_mem, List.mem_cons, List.not_mem_nil,
    Bool.or_eq_false_iff, Bool.and_eq_false_iff, decide_eq_false_iff_not, or_false]
  omega

end JamStream.Session
