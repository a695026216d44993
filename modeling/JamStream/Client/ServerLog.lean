import JamStream.Foundations.Runs
import JamStream.Protocol.ControlMsg

/-! A session server's log on the host's machine: one file for each session, appended line by line
and cut back to its newest lines when it has grown to twice its budget. -/

namespace JamStream.Client
open Protocol Runs

def serverLogTailBytes : ℕ := 64 * 1024

def newline : UInt8 := 10

structure LineFate where
  opens : Bool
  /-- The length of a file just opened is known. -/
  measured : Bool
  /-- The bytes that were written before the write failed, if it did. -/
  torn : Option ℕ
  reads : Bool
  rewrites : Bool
  reopens : Bool

structure LogLine where
  session : String
  text : Bytes
  fate : LineFate

/-- The files, the one that is open with its length, and all that was appended (history). -/
structure ServerLog where
  files : String → Bytes
  opened : Option (String × ℕ)
  appended : String → Bytes

namespace ServerLog

def start (files : String → Bytes) : ServerLog := { files, opened := none, appended := fun _ => [] }

/-- Where the tail begins: behind the first end of a line among the last bytes. -/
def cut (bytes : Bytes) : ℕ :=
  (bytes.drop (bytes.length - serverLogTailBytes)).findIdx? (· == newline) |>.elim bytes.length
    fun at_ => bytes.length - serverLogTailBytes + at_ + 1

def grow (log : ServerLog) (session : String) (bytes : Bytes) : ServerLog :=
  { log with
    files := Function.update log.files session (log.files session ++ bytes)
    appended := Function.update log.appended session (log.appended session ++ bytes) }

def openFor (log : ServerLog) (line : LogLine) : Option ℕ :=
  match log.opened.filter fun held => held.1 = line.session with
  | some held => some held.2
  | none =>
    if line.fate.opens then
      some (if line.fate.measured then (log.files line.session).length else 0)
    else none

/-- The file is replaced by its tail, and the handle by one on the new file. -/
def trim (log : ServerLog) (line : LogLine) : ServerLog :=
  let bytes := log.files line.session
  if !line.fate.reads || !line.fate.rewrites then { log with opened := none }
  else { log with
    files := Function.update log.files line.session (bytes.drop (cut bytes))
    opened := if line.fate.reopens then some (line.session, bytes.length - cut bytes) else none }

def append (log : ServerLog) (line : LogLine) (length : ℕ) : ServerLog :=
  match line.fate.torn with
  | some n => { log.grow line.session ((line.text ++ [newline]).take n) with opened := none }
  | none =>
    let longer := length + line.text.length + 1
    let grown := log.grow line.session (line.text ++ [newline])
    if longer ≤ serverLogTailBytes * 2 then { grown with opened := some (line.session, longer) }
    else grown.trim line

def step (log : ServerLog) (line : LogLine) : ServerLog :=
  (log.openFor line).elim { log with opened := none } (log.append line)

variable {log : ServerLog} {line : LogLine} {files : String → Bytes}

def Tail (whole kept : Bytes) : Prop :=
  ∃ dropped, whole = dropped ++ kept ∧ (dropped = [] ∨ dropped.getLast? = some newline)

theorem Tail.rfl (bytes : Bytes) : Tail bytes bytes := ⟨[], Eq.refl _, .inl (Eq.refl _)⟩

theorem Tail.append {whole kept : Bytes} (h : Tail whole kept) (bytes : Bytes) :
    Tail (whole ++ bytes) (kept ++ bytes) := by
  obtain ⟨dropped, rfl, hends⟩ := h
  exact ⟨dropped, List.append_assoc _ _ _, hends⟩

theorem Tail.trans {whole kept less : Bytes} (h : Tail whole kept) (hkept : Tail kept less) :
    Tail whole less := by
  obtain ⟨dropped, rfl, hends⟩ := h
  obtain ⟨more, rfl, hmore⟩ := hkept
  refine ⟨dropped ++ more, (List.append_assoc _ _ _).symm, ?_⟩
  rcases hmore with rfl | hmore
  · rw [List.append_nil]
    exact hends
  · right
    rw [List.getLast?_append, hmore, Option.some_or]

theorem exists_cut {bytes : Bytes} (hends : bytes.getLast? = some newline) :
    ∃ i, bytes[i]? = some newline ∧ cut bytes = i + 1 ∧
      bytes.length - serverLogTailBytes ≤ i ∧
      ∀ j, bytes.length - serverLogTailBytes ≤ j → bytes[j]? = some newline → i ≤ j := by
  have hnil : bytes ≠ [] := by
    rintro rfl
    cases hends
  have hlength := List.length_pos_iff.mpr hnil
  have htail : 0 < serverLogTailBytes := by decide
  rw [cut]
  generalize hfrom : bytes.length - serverLogTailBytes = from_
  rw [List.getLast?_eq_getElem?] at hends
  have hlast : (bytes.drop from_)[bytes.length - 1 - from_]? = some newline := by
    have hindex : from_ + (bytes.length - 1 - from_) = bytes.length - 1 := by omega
    rw [List.getElem?_drop, hindex, hends]
  cases hfound : (bytes.drop from_).findIdx? (· == newline) with
  | none =>
    have hnone := List.findIdx?_eq_none_iff.mp hfound newline (List.mem_of_getElem? hlast)
    simp at hnone
  | some k =>
    obtain ⟨hk, hnewline, hfirst⟩ := List.findIdx?_eq_some_iff_getElem.mp hfound
    refine ⟨from_ + k, ?_, rfl, Nat.le_add_right _ _, fun j hj hjnewline => ?_⟩
    · rw [← List.getElem?_drop, List.getElem?_eq_getElem hk, eq_of_beq hnewline]
    · by_contra hless
      have hshort : j - from_ < k := by omega
      have hat : (bytes.drop from_)[j - from_]? = some newline := by
        have hindex : from_ + (j - from_) = j := by omega
        rw [List.getElem?_drop, hindex, hjnewline]
      obtain ⟨_, hsame⟩ := List.getElem?_eq_some_iff.mp hat
      refine hfirst (j - from_) hshort ?_
      rw [hsame]
      exact beq_self_eq_true newline

theorem tail_cut {bytes : Bytes} (hends : bytes.getLast? = some newline) :
    Tail bytes (bytes.drop (cut bytes)) := by
  obtain ⟨i, hnewline, hcut, -⟩ := exists_cut hends
  refine ⟨bytes.take (cut bytes), (List.take_append_drop _ _).symm, .inr ?_⟩
  rw [hcut, List.getLast?_take, if_neg (Nat.succ_ne_zero i), Nat.add_sub_cancel, hnewline,
    Option.some_or]

theorem length_cut {bytes : Bytes} (hends : bytes.getLast? = some newline) :
    bytes.length - cut bytes < serverLogTailBytes := by
  obtain ⟨i, hnewline, hcut, hfrom, -⟩ := exists_cut hends
  obtain ⟨hi, -⟩ := List.getElem?_eq_some_iff.mp hnewline
  omega

/-- What each file holds is the newest of what was logged, and a handle takes its file for no
longer than it is. -/
structure Kept (files : String → Bytes) (log : ServerLog) : Prop where
  tails : ∀ session, Tail (files session ++ log.appended session) (log.files session)
  budget : ∀ held ∈ log.opened, held.2 ≤ serverLogTailBytes * 2
  known : ∀ held ∈ log.opened, held.2 ≤ (log.files held.1).length

def Measured (log : ServerLog) : Prop :=
  ∀ held ∈ log.opened, (log.files held.1).length = held.2

theorem kept_closed (h : ∀ session, Tail (files session ++ log.appended session) (log.files session)) :
    Kept files { log with opened := none } where
  tails := h
  budget _ hheld := by cases hheld
  known _ hheld := by cases hheld

theorem kept_start (files : String → Bytes) : Kept files (start files) where
  tails session := by
    change Tail (files session ++ []) _
    rw [List.append_nil]
    exact .rfl _
  budget _ h := by cases h
  known _ h := by cases h

section files
variable {session other : String} {bytes : Bytes} {length : ℕ}

theorem files_grow : (log.grow session bytes).files session = log.files session ++ bytes :=
  Function.update_self ..

theorem Kept.grow (h : Kept files log) (session : String) (bytes : Bytes) (other : String) :
    Tail (files other ++ (log.grow session bytes).appended other)
      ((log.grow session bytes).files other) := by
  by_cases hsame : other = session
  · subst hsame
    change Tail (files other ++ Function.update log.appended other _ other) _
    rw [Function.update_self, files_grow, ← List.append_assoc]
    exact (h.tails other).append bytes
  · change Tail (files other ++ Function.update log.appended session _ other)
      (Function.update log.files session _ other)
    rw [Function.update_of_ne hsame, Function.update_of_ne hsame]
    exact h.tails other

theorem trim_cases (log : ServerLog) (line : LogLine) :
    log.trim line = { log with opened := none } ∨
    ∃ opened, log.trim line = { log with
        files := Function.update log.files line.session
          ((log.files line.session).drop (cut (log.files line.session)))
        opened } ∧
      (opened = none ∨ opened = some (line.session,
        (log.files line.session).length - cut (log.files line.session))) := by
  rw [trim]
  split_ifs
  · exact .inl rfl
  · exact .inr ⟨_, rfl, .inr rfl⟩
  · exact .inr ⟨_, rfl, .inl rfl⟩

theorem measured_trim (log : ServerLog) (line : LogLine) : (log.trim line).Measured := by
  intro held hheld
  rcases trim_cases log line with heq | ⟨opened, heq, hopened⟩
  · rw [heq] at hheld
    cases hheld
  · rw [heq] at hheld ⊢
    rcases hopened with rfl | rfl
    · cases hheld
    · obtain rfl := Option.some.inj hheld
      change (Function.update log.files _ _ _).length = _
      rw [Function.update_self, List.length_drop]

theorem Kept.trim (h : ∀ other, Tail (files other ++ log.appended other) (log.files other))
    (hends : (log.files line.session).getLast? = some newline) : Kept files (log.trim line) := by
  have hknown : ∀ held ∈ (log.trim line).opened, held.2 ≤ ((log.trim line).files held.1).length :=
    fun held hheld => (measured_trim log line held hheld).ge
  rcases trim_cases log line with heq | ⟨opened, heq, hopened⟩
  · rw [heq]
    exact kept_closed h
  · rw [heq] at hknown ⊢
    refine ⟨fun other => ?_, fun held hheld => ?_, hknown⟩
    · by_cases hsame : other = line.session
      · subst hsame
        change Tail _ (Function.update log.files _ _ _)
        rw [Function.update_self]
        exact (h line.session).trans (tail_cut hends)
      · change Tail _ (Function.update log.files _ _ _)
        rw [Function.update_of_ne hsame]
        exact h other
    · rcases hopened with rfl | rfl
      · cases hheld
      · obtain rfl := Option.some.inj hheld
        have hlength := length_cut hends
        dsimp only
        omega

theorem ends_grow (log : ServerLog) (line : LogLine) :
    ((log.grow line.session (line.text ++ [newline])).files line.session).getLast? =
      some newline := by
  rw [files_grow, ← List.append_assoc, List.getLast?_append, List.getLast?_singleton,
    Option.some_or]

theorem Kept.append (h : Kept files log) (line : LogLine) {length : ℕ}
    (hknown : length ≤ (log.files line.session).length) :
    Kept files (log.append line length) := by
  rw [ServerLog.append]
  cases line.fate.torn with
  | some n => exact kept_closed (h.grow _ _)
  | none =>
    dsimp only
    split_ifs with hfits
    · refine ⟨h.grow _ _, fun held hheld => ?_, fun held hheld => ?_⟩
      · obtain rfl := Option.some.inj hheld
        exact hfits
      · obtain rfl := Option.some.inj hheld
        change length + line.text.length + 1 ≤ ((log.grow line.session _).files line.session).length
        rw [files_grow, List.length_append, List.length_append, List.length_singleton]
        omega
    · exact .trim (h.grow _ _) (ends_grow log line)

/-- The length is that of the handle that is open on the session's file, or that of a new one. -/
theorem openFor_cases (hopen : log.openFor line = some length) :
    log.opened = some (line.session, length) ∨
      length = if line.fate.measured then (log.files line.session).length else 0 := by
  rw [openFor] at hopen
  cases hfilter : log.opened.filter fun held => held.1 = line.session with
  | some held =>
    rw [hfilter] at hopen
    obtain ⟨hheld, hsession⟩ := Option.filter_eq_some_iff.mp hfilter
    obtain rfl := Option.some.inj hopen
    rw [← of_decide_eq_true hsession]
    exact .inl hheld
  | none =>
    rw [hfilter] at hopen
    dsimp only at hopen
    by_cases hopens : line.fate.opens = true
    · rw [if_pos hopens] at hopen
      exact .inr (Option.some.inj hopen).symm
    · rw [if_neg hopens] at hopen
      cases hopen

theorem Kept.openFor_le (h : Kept files log) (hopen : log.openFor line = some length) :
    length ≤ (log.files line.session).length := by
  rcases openFor_cases hopen with hheld | rfl
  · exact h.known _ hheld
  · split_ifs
    · exact le_rfl
    · exact Nat.zero_le _

theorem Kept.step (h : Kept files log) (line : LogLine) : Kept files (log.step line) := by
  rw [ServerLog.step]
  cases hopen : log.openFor line with
  | none => exact kept_closed h.tails
  | some length => exact h.append line (h.openFor_le hopen)

theorem measured_append (hlength : (log.files line.session).length = length) :
    (log.append line length).Measured := by
  rw [ServerLog.append]
  cases line.fate.torn with
  | some n => exact fun held hheld => by cases hheld
  | none =>
    dsimp only
    split_ifs with hfits
    · intro held hheld
      obtain rfl := Option.some.inj hheld
      change ((log.grow line.session _).files line.session).length = _
      rw [files_grow, List.length_append, List.length_append, hlength, List.length_singleton]
      rfl
    · exact measured_trim _ line

theorem Measured.step (h : log.Measured) (hmeasured : line.fate.measured = true) :
    (log.step line).Measured := by
  rw [ServerLog.step]
  cases hopen : log.openFor line with
  | none => exact fun held hheld => by cases hheld
  | some length =>
    refine measured_append ?_
    rcases openFor_cases hopen with hheld | rfl
    · exact h _ hheld
    · exact (if_pos hmeasured).symm

end files

end ServerLog
end JamStream.Client
