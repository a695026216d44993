import JamStream.Foundations.Lines
import JamStream.Foundations.Runs
import JamStream.Session.Control

/-! The revocation file: one lowercase hex token id a line, appended and never rewritten.
An append that a crash cuts short leaves the start of its line behind, and the next one
goes on from there. -/

namespace JamStream.Server
open Protocol Foundations Lines Runs

abbrev Text := List Char

def maxEntries : ℕ := 4096

def hexDigit (n : ℕ) : Char := if n < 10 then Char.ofNat (48 + n) else Char.ofNat (87 + n)

def hexByte (b : UInt8) : Text := [hexDigit (b.toNat / 16), hexDigit (b.toNat % 16)]

def hex (jti : TokenId) : Text := ((Codec.array 16).ser jti).flatMap hexByte

def digit (c : Char) : Option ℕ :=
  if '0' ≤ c ∧ c ≤ '9' then some (c.toNat - 48)
  else if 'a' ≤ c ∧ c ≤ 'f' then some (c.toNat - 87)
  else if 'A' ≤ c ∧ c ≤ 'F' then some (c.toNat - 55)
  else none

/-- Two characters as a number in base 16; a sign counts as the first of them. -/
def fromStrRadix (a b : Char) : Option UInt8 :=
  if a = '+' then (digit b).map UInt8.ofNat
  else (digit a).bind fun x => (digit b).map fun y => UInt8.ofNat (16 * x + y)

def parseBytes : Text → Option Bytes
  | [] => some []
  | a :: b :: rest => (fromStrRadix a b).bind fun byte => (parseBytes rest).map fun bs => byte :: bs
  | [_] => none

/-- Thirty-two bytes of text. A character of more than one byte is no digit, whichever
slice it falls into. -/
def parseJti (s : Text) : Option TokenId :=
  if (String.ofList s).utf8ByteSize ≠ 32 then none
  else (parseBytes s).bind fun bs => ((Codec.array 16).de bs).map Prod.fst

/-- A carriage return before a line's end goes with the rest of the white space. -/
def load (text : Text) : List TokenId :=
  ((lines '\n' text).take maxEntries).filterMap fun line =>
    parseJti (Session.trim (String.ofList line)).toList

def entry (jti : TokenId) : Text := hex jti ++ ['\n']

/-- The file, and every id whose append returned `Ok` with the line it went to. -/
structure Revocations where
  text : Text
  recorded : List (TokenId × ℕ)

namespace Revocations

inductive Event
  | append (jti : TokenId)
  /-- A crash after so many bytes of the line. -/
  | torn (jti : TokenId) (bytes : ℕ)

/-- No file yet. -/
def missing : Revocations := { text := [], recorded := [] }

def step (r : Revocations) : Event → Revocations
  | .append jti =>
    { text := r.text ++ entry jti, recorded := r.recorded ++ [(jti, r.text.count '\n')] }
  | .torn jti bytes => { r with text := r.text ++ (entry jti).take bytes }

def Durable (r : Revocations) : Prop :=
  ∀ e ∈ r.recorded, e.2 < maxEntries → e.1 ∈ load r.text

instance (r : Revocations) : Decidable r.Durable :=
  inferInstanceAs (Decidable (∀ e ∈ _, _ → _))

/-- An append starts a line of its own, unless it is past the limit or its id stands on a
whole line already. -/
def OwnLine (r : Revocations) : Event → Prop
  | .append jti =>
    r.text.count '\n' < maxEntries → Ended '\n' r.text ∨ jti ∈ load (whole '\n' r.text)
  | .torn .. => True

instance (r : Revocations) : (e : Event) → Decidable (r.OwnLine e)
  | .append _ => inferInstanceAs (Decidable (_ → _ ∨ _))
  | .torn .. => isTrue trivial

end Revocations

/-- What the file is written in: the sixteen digits. -/
def isHex (c : Char) : Bool := ('0' ≤ c && c ≤ '9') || ('a' ≤ c && c ≤ 'f')

theorem isHex_hexDigit : ∀ n < 16, isHex (hexDigit n) := by decide

theorem isHex_toNat {c : Char} (h : isHex c) :
    (48 ≤ c.toNat ∧ c.toNat ≤ 57) ∨ (97 ≤ c.toNat ∧ c.toNat ≤ 102) := by
  simp only [isHex, Bool.or_eq_true, Bool.and_eq_true, decide_eq_true_eq] at h
  exact h

theorem not_isHex_newline {c : Char} (h : isHex c) : c ≠ '\n' := by
  rintro rfl
  exact absurd h (by decide)

theorem isWhitespace_of_isHex {c : Char} (h : isHex c) : Session.isWhitespace c = false := by
  have hrange := isHex_toNat h
  simp only [Session.isWhitespace, List.contains_eq_mem, List.mem_cons, List.not_mem_nil,
    Bool.or_eq_false_iff, Bool.and_eq_false_iff, decide_eq_false_iff_not, or_false]
  omega

theorem utf8ByteSize_of_isHex {s : Text} (h : ∀ c ∈ s, isHex c) :
    (String.ofList s).utf8ByteSize = s.length := by
  induction s with
  | nil => rfl
  | cons c rest ih =>
    have hc : c.utf8Size = 1 := by
      have hrange := isHex_toNat (h c List.mem_cons_self)
      refine Char.utf8Size_eq_one_iff.mpr (UInt32.le_iff_toNat_le.mpr ?_)
      show c.toNat ≤ 127
      omega
    rw [String.ofList_cons, String.utf8ByteSize_append, String.utf8ByteSize_singleton, hc,
      ih fun d hd => h d (List.mem_cons_of_mem c hd), List.length_cons, Nat.add_comm]

theorem trim_of_isHex {s : Text} (h : ∀ c ∈ s, isHex c) :
    (Session.trim (String.ofList s)).toList = s := by
  have hdrop : ∀ l : Text, (∀ c ∈ l, isHex c) → l.dropWhile Session.isWhitespace = l := by
    intro l hl
    cases l with
    | nil => rfl
    | cons c rest =>
      refine List.dropWhile_cons_of_neg ?_
      rw [isWhitespace_of_isHex (hl c List.mem_cons_self)]
      exact Bool.false_ne_true
  unfold Session.trim
  rw [String.toList_ofList, String.toList_ofList, hdrop s h,
    hdrop s.reverse fun c hc => h c (List.mem_reverse.mp hc), List.reverse_reverse]

theorem fromStrRadix_hexByte (b : UInt8) :
    fromStrRadix (hexDigit (b.toNat / 16)) (hexDigit (b.toNat % 16)) = some b := by
  have hall : ∀ n : Fin 256, fromStrRadix (hexDigit (n.val / 16)) (hexDigit (n.val % 16)) =
      some (UInt8.ofNat n.val) := by decide +kernel
  have hb := hall ⟨b.toNat, b.toNat_lt⟩
  rwa [UInt8.ofNat_toNat] at hb

theorem parseBytes_flatMap (bs : Bytes) : parseBytes (bs.flatMap hexByte) = some bs := by
  induction bs with
  | nil => rfl
  | cons b rest ih =>
    show parseBytes (hexDigit _ :: hexDigit _ :: rest.flatMap hexByte) = _
    rw [parseBytes, fromStrRadix_hexByte, ih]
    rfl

theorem isHex_hex (jti : TokenId) : ∀ c ∈ hex jti, isHex c := by
  intro c hc
  obtain ⟨b, -, hb⟩ := List.mem_flatMap.mp hc
  have hlt := b.toNat_lt
  rcases List.mem_pair.mp hb with rfl | rfl
  · exact isHex_hexDigit _ (by omega)
  · exact isHex_hexDigit _ (by omega)

theorem length_hex (jti : TokenId) : (hex jti).length = 32 := by
  have hbytes : ((Codec.array 16).ser jti).length = 16 := Codec.array_sized 16 jti
  have hpairs : ∀ bs : Bytes, (bs.flatMap hexByte).length = 2 * bs.length := by
    intro bs
    rw [List.length_flatMap]
    show (bs.map fun _ => 2).sum = _
    rw [List.map_const', List.sum_replicate, smul_eq_mul, Nat.mul_comm]
  unfold hex
  rw [hpairs, hbytes]

theorem parseJti_hex (jti : TokenId) : parseJti (hex jti) = some jti := by
  have hread := Codec.array_lawful 16 jti []
  rw [List.append_nil] at hread
  unfold parseJti
  rw [utf8ByteSize_of_isHex (isHex_hex jti), length_hex, if_neg (not_not.mpr rfl), hex,
    parseBytes_flatMap, Option.bind_some, hread]
  rfl

def readLine (line : Text) : Option TokenId :=
  parseJti (Session.trim (String.ofList line)).toList

theorem load_eq (text : Text) :
    load text = ((lines '\n' text).take maxEntries).filterMap readLine := rfl

theorem readLine_hex (jti : TokenId) : readLine (hex jti) = some jti := by
  unfold readLine
  rw [trim_of_isHex (isHex_hex jti), parseJti_hex]

theorem readLine_glued {left : Text} (h : ∀ c ∈ left, isHex c) (hne : left ≠ []) (jti : TokenId) :
    readLine (left ++ hex jti) = none := by
  have hglued : ∀ c ∈ left ++ hex jti, isHex c :=
    List.forall_mem_append.mpr ⟨h, isHex_hex jti⟩
  have hlength := List.length_pos_iff.mpr hne
  unfold readLine parseJti
  rw [trim_of_isHex hglued, utf8ByteSize_of_isHex hglued, if_pos]
  rw [List.length_append, length_hex]
  omega

theorem load_concat {text line : Text} (h : Ended '\n' text) (hline : '\n' ∉ line) :
    load (text ++ (line ++ ['\n'])) =
      load text ++ if text.count '\n' < maxEntries then (readLine line).toList else [] := by
  rw [load_eq, load_eq, lines_append h, lines_concat hline, List.take_append, length_lines h,
    List.filterMap_append]
  refine congrArg _ ?_
  split_ifs with hroom
  · obtain ⟨k, hk⟩ := Nat.exists_eq_add_of_lt hroom
    rw [hk, show text.count '\n' + k + 1 - text.count '\n' = k + 1 by omega]
    cases hread : readLine line <;> simp [hread]
  · rw [Nat.sub_eq_zero_of_le (not_lt.mp hroom)]
    rfl

theorem load_mono {text : Text} (h : Ended '\n' text) (more : Text) :
    load text ⊆ load (text ++ more) := by
  rw [load_eq, load_eq, lines_append h, List.take_append, List.filterMap_append]
  exact List.subset_append_left _ _

theorem load_whole_subset (text : Text) : load (whole '\n' text) ⊆ load text := by
  have hmono := load_mono (ended_whole '\n' text) (remainder '\n' text)
  rwa [whole_append_remainder] at hmono

theorem load_whole_append (text more : Text) :
    load (whole '\n' text) ⊆ load (whole '\n' (text ++ more)) := by
  obtain ⟨rest, hrest⟩ := whole_prefix_append '\n' text more
  rw [← hrest]
  exact load_mono (ended_whole '\n' text) rest

namespace Revocations
variable {r : Revocations}

/-- The file is digits and newlines, and what the loader reads of the ids that returned
`Ok` stands on whole lines. -/
structure Inv (r : Revocations) : Prop where
  digits : ∀ c ∈ r.text, c = '\n' ∨ isHex c
  whole : ∀ e ∈ r.recorded, e.2 < maxEntries → e.1 ∈ load (Lines.whole '\n' r.text)

theorem Inv.durable (h : Inv r) : r.Durable :=
  fun e he hlimit => load_whole_subset r.text (h.whole e he hlimit)

theorem Inv.remainder_isHex (h : Inv r) : ∀ c ∈ remainder '\n' r.text, isHex c := by
  intro c hc
  have hmem : c ∈ r.text := by
    rw [← whole_append_remainder '\n' r.text]
    exact List.mem_append_right _ hc
  refine (h.digits c hmem).resolve_left ?_
  rintro rfl
  exact sep_notMem_remainder r.text hc

theorem entry_digits (jti : TokenId) : ∀ c ∈ entry jti, c = '\n' ∨ isHex c := by
  intro c hc
  rcases List.mem_append.mp hc with hc | hc
  · exact .inr (isHex_hex jti c hc)
  · exact .inl (List.mem_singleton.mp hc)

/-- What an append makes of the file: its whole lines, and the remainder with the new id
on one more. -/
theorem load_append (r : Revocations) (jti : TokenId) :
    load (r.text ++ entry jti) = load (Lines.whole '\n' r.text) ++
      if r.text.count '\n' < maxEntries then
        (readLine (remainder '\n' r.text ++ hex jti)).toList else [] := by
  have hsplit := whole_append_remainder '\n' r.text
  have hline : '\n' ∉ remainder '\n' r.text ++ hex jti := by
    rw [List.mem_append, not_or]
    exact ⟨sep_notMem_remainder r.text, fun hmem => not_isHex_newline (isHex_hex jti _ hmem) rfl⟩
  have hcount : (Lines.whole '\n' r.text).count '\n' = r.text.count '\n' := by
    conv_rhs => rw [← hsplit, List.count_append,
      List.count_eq_zero_of_not_mem (sep_notMem_remainder r.text), Nat.add_zero]
  have happend : r.text ++ entry jti =
      Lines.whole '\n' r.text ++ ((remainder '\n' r.text ++ hex jti) ++ ['\n']) := by
    conv_lhs => rw [← hsplit]
    simp only [entry, List.append_assoc]
  rw [happend, load_concat (ended_whole '\n' r.text) hline, hcount]

theorem Inv.step (h : Inv r) {e : Event} (hown : r.OwnLine e) : Inv (r.step e) := by
  cases e with
  | torn jti bytes =>
    refine ⟨fun c hc => ?_, fun e he hlimit => ?_⟩
    · rcases List.mem_append.mp hc with hc | hc
      · exact h.digits c hc
      · exact entry_digits jti c (List.mem_of_mem_take hc)
    · exact load_whole_append r.text _ (h.whole e he hlimit)
  | append jti =>
    refine ⟨fun c hc => ?_, fun e he hlimit => ?_⟩
    · rcases List.mem_append.mp hc with hc | hc
      · exact h.digits c hc
      · exact entry_digits jti c hc
    · rcases List.mem_append.mp he with he | he
      · exact load_whole_append r.text _ (h.whole e he hlimit)
      · obtain rfl := List.mem_singleton.mp he
        have hended : Ended '\n' (r.text ++ entry jti) := by
          unfold entry
          rw [← List.append_assoc]
          exact ended_concat _
        show jti ∈ load (Lines.whole '\n' (r.text ++ entry jti))
        rw [hended, load_append, if_pos hlimit]
        rcases hown hlimit with hfresh | hknown
        · rw [ended_iff_remainder.mp hfresh, List.nil_append, readLine_hex]
          exact List.mem_append_right _ (List.mem_singleton_self jti)
        · exact List.mem_append_left _ hknown

theorem Inv.ownLine (h : Inv r) {e : Event} (hdurable : (r.step e).Durable) : r.OwnLine e := by
  cases e with
  | torn jti bytes => trivial
  | append jti =>
    intro hlimit
    have hloaded : jti ∈ load (r.text ++ entry jti) := hdurable (jti, r.text.count '\n')
      (List.mem_append_right _ (List.mem_singleton_self _)) hlimit
    rw [load_append, if_pos hlimit] at hloaded
    by_cases hfresh : remainder '\n' r.text = []
    · exact .inl (ended_iff_remainder.mpr hfresh)
    · rw [readLine_glued h.remainder_isHex hfresh, Option.toList_none, List.append_nil] at hloaded
      exact .inr hloaded

theorem inv_missing : Inv missing where
  digits _ hc := absurd hc List.not_mem_nil
  whole _ he := absurd he List.not_mem_nil

/-- Every id on record survives a whole history of appends and crashes exactly when each
append that returned `Ok` started a line of its own. -/
theorem durable_iff (events : List Event) :
    Throughout step Durable missing events ↔ Meets step OwnLine missing events := by
  refine throughout_iff_meets (I := Inv) (fun r hr => ?_) (fun r e hr hown => ?_)
    (fun r e hr hdurable => ?_) inv_missing
  · exact hr.durable
  · exact hr.step hown
  · exact hr.ownLine hdurable

/-- One byte of an append is on disk when the machine goes down. -/
theorem durable_torn :
    ¬∀ events : List Event, Throughout step Durable missing events := by
  intro h
  have hlost : ¬(run step missing [.torn 0 1, .append 1]).Durable := by decide +kernel
  exact hlost (h [.torn 0 1, .append 1]).last

end Revocations
end JamStream.Server
