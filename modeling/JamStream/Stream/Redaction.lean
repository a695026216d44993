import JamStream.Foundations.Chars
import JamStream.Foundations.Search
import JamStream.Session.Blanks

/-! What is left of the URLs in a line a child wrote, before it is logged or shown. A line is
read as texts and URL bodies in turn; of a body nothing is kept. -/

namespace JamStream.Stream
open Foundations Session

abbrev Line := List Char

def separator : Line := "://".toList

def redactedMark : Line := "<redacted>".toList

def localRelay : Line := "<local relay>".toList

/-- The punctuation that may follow a URL without belonging to it. -/
def trailing : Line := ":,.;)\"'".toList

def isSchemeChar (c : Char) : Bool := c.isAlphanum || "+-.".toList.contains c

/-- The letters a URL begins with, at the end of what stands before its separator. -/
def scheme (head : Line) : Line := head.rtakeWhile isSchemeChar

def compared (head body : Line) : Line :=
  (scheme head ++ separator ++ body).rdropWhile (trailing.contains ·)

/-- What is written for one URL and the text before it. -/
def shown (relay : Option Line) (head body : Line) : Line :=
  if relay = some (compared head body) then head.rdropWhile isSchemeChar ++ localRelay
  else head ++ separator ++ redactedMark

/-- One URL a turn; each takes the characters of a separator at least. -/
def redactLoop (relay : Option Line) : ℕ → Line → Line
  | 0, rest => rest
  | fuel + 1, rest =>
    match splitFirst separator rest with
    | none => rest
    | some (head, tail) =>
      shown relay head (tail.takeWhile (!isWhitespace ·)) ++
        redactLoop relay fuel (tail.dropWhile (!isWhitespace ·))

def redact (relay : Option Line) (line : Line) : Line := redactLoop relay line.length line

def Plain (line : Line) : Prop := splitFirst separator line = none

instance (line : Line) : Decidable (Plain line) := inferInstanceAs (Decidable (_ = _))

def AtBlank (line : Line) : Prop := ∀ c ∈ line.head?, isWhitespace c = true

/-- The line with these URLs, each with the text before it, and that rest. -/
def compose : List (Line × Line) → Line → Line
  | [], rest => rest
  | (head, body) :: urls, rest => head ++ separator ++ body ++ compose urls rest

def Cut : List (Line × Line) → Line → Prop
  | [], rest => Plain rest
  | (head, body) :: urls, rest =>
    Plain head ∧ (∀ c ∈ body, isWhitespace c = false) ∧ AtBlank (compose urls rest) ∧ Cut urls rest

variable {relay : Option Line} {head body tail rest line : Line} {urls urls' : List (Line × Line)}

theorem separator_tail {c : Char} (h : isWhitespace c = true) : c ∉ separator.tail := by
  intro hc
  have hnone : separator.tail.all (fun c => !isWhitespace c) = true := by decide
  have hblank := List.all_eq_true.mp hnone c hc
  rw [h] at hblank
  cases hblank

theorem splitFirst_separator (h : Plain head) :
    splitFirst separator (head ++ separator ++ tail) = some (head, tail) := by
  have hmark : ∀ c ∈ (separator ++ tail).head?, c ∉ separator.tail := by
    intro c hc
    obtain rfl : ':' = c := Option.some.inj hc
    decide
  rw [List.append_assoc, splitFirst_append h hmark, splitFirst_here (by decide)]
  exact congrArg some (Prod.ext (List.append_nil head) rfl)

theorem length_tail_lt (h : splitFirst separator line = some (head, tail)) :
    (tail.dropWhile (!isWhitespace ·)).length < line.length := by
  have hline := congrArg List.length (splitFirst_sound h)
  rw [List.length_append, List.length_append] at hline
  have hdrop := (List.dropWhile_sublist (!isWhitespace ·) (l := tail)).length_le
  have hsep : separator.length = 3 := rfl
  omega

theorem redactLoop_eq {fuel : ℕ} (h : line.length ≤ fuel) :
    redactLoop relay fuel line = redact relay line := by
  have hsame : ∀ fuel fuel' : ℕ, ∀ line : Line, line.length ≤ fuel → line.length ≤ fuel' →
      redactLoop relay fuel line = redactLoop relay fuel' line := by
    intro fuel
    induction fuel with
    | zero =>
      intro fuel' line hline _
      obtain rfl := List.length_eq_zero_iff.mp (Nat.le_zero.mp hline)
      cases fuel' <;> rfl
    | succ fuel ih =>
      intro fuel' line hline hline'
      cases fuel' with
      | zero =>
        obtain rfl := List.length_eq_zero_iff.mp (Nat.le_zero.mp hline')
        rfl
      | succ fuel' =>
        rw [redactLoop, redactLoop]
        rcases hsplit : splitFirst separator line with _ | ⟨head, tail⟩
        · rfl
        · have hlt := length_tail_lt hsplit
          exact congrArg _ (ih fuel' _ (Nat.le_of_lt_succ (hlt.trans_le hline))
            (Nat.le_of_lt_succ (hlt.trans_le hline')))
  exact hsame _ _ line h le_rfl

theorem redact_plain (h : Plain line) : redact relay line = line := by
  unfold redact
  cases line with
  | nil => rfl
  | cons c line => rw [List.length_cons, redactLoop, show splitFirst _ _ = none from h]

theorem redact_split (h : splitFirst separator line = some (head, tail)) :
    redact relay line = shown relay head (tail.takeWhile (!isWhitespace ·)) ++
      redact relay (tail.dropWhile (!isWhitespace ·)) := by
  have hlt := length_tail_lt h
  rw [← redactLoop_eq (Nat.le_succ_of_le le_rfl), redactLoop, h]
  exact congrArg _ (redactLoop_eq hlt.le)

theorem body_of_all (h : body.all (!isWhitespace ·) = true) : ∀ c ∈ body, isWhitespace c = false := by
  intro c hc
  simpa using List.all_eq_true.mp h c hc

theorem takeWhile_body (hbody : ∀ c ∈ body, isWhitespace c = false) (htail : AtBlank tail) :
    (body ++ tail).takeWhile (!isWhitespace ·) = body ∧
    (body ++ tail).dropWhile (!isWhitespace ·) = tail := by
  have hkeep : ∀ c ∈ body, (!isWhitespace c) = true := fun c hc => by rw [hbody c hc]; rfl
  rw [List.takeWhile_append_of_pos hkeep, List.dropWhile_append_of_pos hkeep]
  cases tail with
  | nil => exact ⟨List.append_nil body, rfl⟩
  | cons c tail =>
    rw [List.takeWhile_cons, List.dropWhile_cons, htail c rfl]
    exact ⟨List.append_nil body, rfl⟩

theorem redact_url (hhead : Plain head) (hbody : ∀ c ∈ body, isWhitespace c = false)
    (htail : AtBlank tail) :
    redact relay (head ++ separator ++ body ++ tail) = shown relay head body ++ redact relay tail := by
  obtain ⟨htake, hdrop⟩ := takeWhile_body hbody htail
  rw [List.append_assoc (head ++ separator), redact_split (splitFirst_separator hhead), htake,
    hdrop]

theorem redact_compose (h : Cut urls rest) :
    redact relay (compose urls rest) = urls.flatMap (fun u => shown relay u.1 u.2) ++ rest := by
  induction urls with
  | nil => exact redact_plain h
  | cons u urls ih =>
    obtain ⟨hhead, hbody, hblank, hcut⟩ := h
    rw [compose, redact_url hhead hbody hblank, ih hcut, List.flatMap_cons, List.append_assoc]

theorem exists_cut (line : Line) : ∃ urls rest, Cut urls rest ∧ compose urls rest = line := by
  induction hlength : line.length using Nat.strong_induction_on generalizing line with
  | _ n ih =>
    rcases hsplit : splitFirst separator line with _ | ⟨head, tail⟩
    · exact ⟨[], line, hsplit, rfl⟩
    · have hlt := length_tail_lt hsplit
      rw [hlength] at hlt
      obtain ⟨urls, rest, hcut, htail⟩ := ih _ hlt _ rfl
      refine ⟨(head, tail.takeWhile (!isWhitespace ·)) :: urls, rest, ⟨?_, ?_, ?_, hcut⟩, ?_⟩
      · exact splitFirst_before (by decide) hsplit
      · intro c hc
        simpa using List.mem_takeWhile_imp hc
      · rw [htail]
        intro c hc
        have hfirst := List.head?_dropWhile_not (!isWhitespace ·) tail
        rw [show List.head? _ = some c from hc] at hfirst
        simpa using hfirst
      · rw [compose, htail, List.append_assoc, List.takeWhile_append_dropWhile,
          ← splitFirst_sound hsplit]

theorem takeWhile_stop {p : Char → Bool} {c : Char} (hc : p c = false) (xs ys : Line) :
    (xs ++ c :: ys).takeWhile p = (xs ++ [c]).takeWhile p ∧
    (xs ++ c :: ys).dropWhile p = (xs ++ [c]).dropWhile p ++ ys := by
  induction xs with
  | nil =>
    rw [List.nil_append, List.nil_append, List.takeWhile_cons, List.takeWhile_cons,
      List.dropWhile_cons, List.dropWhile_cons, hc]
    exact ⟨rfl, rfl⟩
  | cons x xs ih =>
    rw [List.cons_append, List.cons_append, List.takeWhile_cons, List.takeWhile_cons,
      List.dropWhile_cons, List.dropWhile_cons, ih.1, ih.2]
    cases p x with
    | true => exact ⟨rfl, rfl⟩
    | false =>
      refine ⟨rfl, ?_⟩
      show x :: (xs ++ c :: ys) = x :: (xs ++ [c]) ++ ys
      rw [List.cons_append, List.append_assoc]
      rfl

theorem scheme_append {c : Char} (hc : isSchemeChar c = false) (text more : Line) :
    scheme (text ++ c :: more) = scheme (c :: more) ∧
    (text ++ c :: more).rdropWhile isSchemeChar =
      text ++ (c :: more).rdropWhile isSchemeChar := by
  obtain ⟨htake, hdrop⟩ := takeWhile_stop hc more.reverse text.reverse
  have hwhole : (text ++ c :: more).reverse = more.reverse ++ c :: text.reverse := by
    rw [List.reverse_append, List.reverse_cons, List.append_assoc]
    rfl
  have hmore : (c :: more).reverse = more.reverse ++ [c] := List.reverse_cons
  unfold scheme List.rtakeWhile List.rdropWhile
  rw [hwhole, hmore, htake, hdrop, List.reverse_append, List.reverse_reverse]
  exact ⟨rfl, rfl⟩

theorem toNat_of_isSchemeChar {c : Char} (h : isSchemeChar c = true) :
    43 ≤ c.toNat ∧ c.toNat ≤ 122 := by
  rcases Bool.or_eq_true_iff.mp h with hletter | hmark
  · have hrange := toNat_of_isAlphanum hletter
    omega
  · have hall : "+-.".toList.all (fun c => 43 ≤ c.toNat && c.toNat ≤ 122) = true := by decide
    have hc := List.all_eq_true.mp hall c (List.contains_iff_mem.mp hmark)
    simpa only [Bool.and_eq_true, decide_eq_true_eq] using hc

theorem blank_not_schemeChar {c : Char} (h : isWhitespace c = true) : isSchemeChar c = false := by
  rw [Bool.eq_false_iff]
  intro hc
  have hrange := toNat_of_isSchemeChar hc
  rw [isWhitespace_of_range hrange.1 hrange.2] at h
  cases h

theorem head_of_blank (h : splitFirst separator line = some (head, tail)) (hblank : AtBlank line) :
    ∃ c more, head = c :: more ∧ isWhitespace c = true := by
  have hline := splitFirst_sound h
  cases head with
  | cons c more => exact ⟨c, more, rfl, hblank c (by rw [hline]; rfl)⟩
  | nil =>
    have hcolon : isWhitespace ':' = true := hblank ':' (by rw [hline]; rfl)
    cases hcolon

theorem shown_append {c : Char} (hc : isWhitespace c = true) (text more body : Line) :
    shown relay (text ++ c :: more) body = text ++ shown relay (c :: more) body := by
  obtain ⟨hscheme, hbefore⟩ := scheme_append (blank_not_schemeChar hc) text more
  unfold shown compared
  rw [hscheme, hbefore]
  split
  · exact List.append_assoc _ _ _
  · rw [List.append_assoc, List.append_assoc, List.append_assoc]

theorem head_shown {c : Char} (hc : isWhitespace c = true) (more body : Line) :
    (shown relay (c :: more) body).head? = some c := by
  have hbefore : ((c :: more).rdropWhile isSchemeChar).head? = some c := by
    have hbegins := List.rdropWhile_prefix isSchemeChar (l := c :: more)
    rcases hkept : (c :: more).rdropWhile isSchemeChar with _ | ⟨d, kept⟩
    · have hfirst := List.rdropWhile_eq_nil_iff.mp hkept c List.mem_cons_self
      rw [blank_not_schemeChar hc] at hfirst
      cases hfirst
    · rw [hkept] at hbegins
      exact congrArg some (List.cons_prefix_cons.mp hbegins).1
  unfold shown
  split
  · rw [List.head?_append, hbefore]
    rfl
  · rfl

theorem redact_append (hhead : Plain head) (hblank : AtBlank line) :
    redact relay (head ++ line) = head ++ redact relay line := by
  have hmark : ∀ c ∈ line.head?, c ∉ separator.tail := fun c hc => separator_tail (hblank c hc)
  have hsplit := splitFirst_append hhead hmark
  rcases hline : splitFirst separator line with _ | ⟨before, tail⟩
  · have hplain : Plain (head ++ line) := by rw [Plain, hsplit, hline]; rfl
    rw [redact_plain hplain, redact_plain hline]
  · obtain ⟨c, more, rfl, hc⟩ := head_of_blank hline hblank
    rw [hline] at hsplit
    rw [redact_split hsplit, redact_split hline, shown_append hc, List.append_assoc]

theorem atBlank_redact (h : AtBlank line) : AtBlank (redact relay line) := by
  rcases hline : splitFirst separator line with _ | ⟨head, tail⟩
  · rwa [redact_plain hline]
  · obtain ⟨c, more, rfl, hc⟩ := head_of_blank hline h
    rw [redact_split hline]
    intro d hd
    rw [List.head?_append, head_shown hc] at hd
    obtain rfl : c = d := Option.some.inj hd
    exact hc

/-- The relay's URL as it reads once it was redacted. -/
def MarkedRelay (relay : Option Line) : Prop :=
  ∃ name : Line, name.all isSchemeChar = true ∧ relay = some (name ++ separator ++ redactedMark)

theorem compared_mark (head : Line) :
    compared head redactedMark = scheme head ++ separator ++ redactedMark := by
  have hmark : redactedMark = "<redacted".toList ++ ['>'] := by decide
  rw [compared, hmark, ← List.append_assoc]
  exact List.rdropWhile_concat_neg _ _ _ (by decide)

theorem shown_mark (hrelay : ¬MarkedRelay relay) (head : Line) :
    shown relay head redactedMark = head ++ separator ++ redactedMark := by
  refine if_neg fun hsame => hrelay ⟨scheme head, ?_, ?_⟩
  · exact List.all_eq_true.mpr fun c hc => List.mem_rtakeWhile_imp hc
  · rw [hsame, compared_mark]

theorem plain_localRelay (h : Plain head) : Plain (head.rdropWhile isSchemeChar ++ localRelay) := by
  have hbefore : Plain (head.rdropWhile isSchemeChar) := by
    refine splitFirst_of_prefix (t := scheme head) ?_
    rwa [scheme, List.rdropWhile_append_rtakeWhile]
  have hmark : ∀ c ∈ localRelay.head?, c ∉ separator.tail := by
    intro c hc
    obtain rfl : '<' = c := Option.some.inj hc
    decide
  have hnone : splitFirst separator localRelay = none := by decide
  rw [Plain, splitFirst_append hbefore hmark, hnone]
  rfl

theorem redact_redact (hrelay : ¬MarkedRelay relay) (line : Line) :
    redact relay (redact relay line) = redact relay line := by
  obtain ⟨urls, rest, hcut, rfl⟩ := exists_cut line
  induction urls with
  | nil => rw [compose, redact_plain hcut, redact_plain hcut]
  | cons u urls ih =>
    obtain ⟨hhead, hbody, hblank, hcut⟩ := hcut
    have hrest : AtBlank (redact relay (compose urls rest)) := atBlank_redact hblank
    rw [compose, redact_url hhead hbody hblank]
    by_cases hsame : relay = some (compared u.1 u.2)
    · rw [shown, if_pos hsame, redact_append (plain_localRelay hhead) hrest, ih hcut]
    · have hmark : ∀ c ∈ redactedMark, isWhitespace c = false := body_of_all (by decide)
      rw [shown, if_neg hsame, redact_url hhead hmark hrest, shown_mark hrelay, ih hcut]

theorem plain_name {name : Line} (h : name.all isSchemeChar = true) : Plain name := by
  have hcolon : ':' ∉ name := by
    intro hin
    exact absurd (List.all_eq_true.mp h ':' hin) (by decide)
  have hsplit : splitFirst separator (name ++ []) =
      (splitFirst separator []).map fun r => (name ++ r.1, r.2) := splitFirst_skip hcolon
  rwa [List.append_nil] at hsplit

theorem not_redact_redact (hrelay : MarkedRelay relay) :
    ∃ line, redact relay (redact relay line) ≠ redact relay line := by
  obtain ⟨name, hname, hrelay⟩ := hrelay
  have hbody : ∀ c ∈ ['x'], isWhitespace c = false := body_of_all (by decide)
  have hmark : ∀ c ∈ redactedMark, isWhitespace c = false := body_of_all (by decide)
  have hend : AtBlank [] := by
    intro c hc
    cases hc
  have hscheme : scheme name = name := List.rtakeWhile_eq_self_iff.mpr (List.all_eq_true.mp hname)
  have hnone : name.rdropWhile isSchemeChar = [] :=
    List.rdropWhile_eq_nil_iff.mpr (List.all_eq_true.mp hname)
  have hother : relay ≠ some (compared name ['x']) := by
    rw [hrelay, compared, hscheme, List.rdropWhile_concat_neg _ _ _ (by decide)]
    intro hsame
    have hlast := congrArg List.getLast? (Option.some.inj hsame)
    rw [List.getLast?_concat, List.getLast?_append] at hlast
    cases hlast
  have honce : redact relay (name ++ separator ++ ['x']) = name ++ separator ++ redactedMark := by
    rw [← List.append_nil (name ++ separator ++ ['x']), redact_url (plain_name hname) hbody hend,
      shown, if_neg hother]
    exact List.append_nil _
  have htwice : redact relay (name ++ separator ++ redactedMark) = localRelay := by
    rw [← List.append_nil (name ++ separator ++ redactedMark),
      redact_url (plain_name hname) hmark hend, shown, compared_mark, hscheme, if_pos hrelay, hnone]
    rfl
  refine ⟨name ++ separator ++ ['x'], ?_⟩
  rw [honce, htwice]
  intro hsame
  have hcolon : ':' ∈ localRelay := by
    rw [hsame]
    exact List.mem_append_left _ (List.mem_append_right name List.mem_cons_self)
  exact absurd hcolon (by decide)

/-- Two URLs after the same text that are one URL, or of which neither is the relay's. -/
structure SameButBody (relay : Option Line) (u v : Line × Line) : Prop where
  head : u.1 = v.1
  body : u.2 = v.2 ∨ relay ≠ some (compared u.1 u.2) ∧ relay ≠ some (compared v.1 v.2)

theorem SameButBody.shown {u v : Line × Line} (h : SameButBody relay u v) :
    shown relay u.1 u.2 = shown relay v.1 v.2 := by
  rcases h.body with hbody | ⟨hu, hv⟩
  · rw [h.head, hbody]
  · unfold Stream.shown
    rw [if_neg hu, if_neg hv, h.head]

theorem flatMap_shown {urls urls' : List (Line × Line)}
    (h : List.Forall₂ (SameButBody relay) urls urls') :
    urls.flatMap (fun u => shown relay u.1 u.2) = urls'.flatMap fun u => shown relay u.1 u.2 := by
  induction h with
  | nil => rfl
  | cons hsame _ ih => rw [List.flatMap_cons, List.flatMap_cons, hsame.shown, ih]

/-- No URL but the relay's own, which may carry punctuation, has a say in what is written. -/
theorem bodies_without_influence (relay : Option Line) :
    (∀ line, ∃ urls rest, Cut urls rest ∧ compose urls rest = line) ∧
    (∀ urls urls' rest, Cut urls rest → Cut urls' rest →
      List.Forall₂ (SameButBody relay) urls urls' →
      redact relay (compose urls rest) = redact relay (compose urls' rest)) ∧
    ((∀ line, redact relay (redact relay line) = redact relay line) ↔ ¬MarkedRelay relay) := by
  refine ⟨exists_cut, ?_, ?_, redact_redact⟩
  · intro urls urls' rest hcut hcut' hsame
    rw [redact_compose hcut, redact_compose hcut', flatMap_shown hsame]
  · intro hall hmarked
    obtain ⟨line, hline⟩ := not_redact_redact hmarked
    exact hline (hall line)

def refused : Line := "connect to rtmp".toList

theorem cut_refused {body : Line} (h : body.all (!isWhitespace ·) = true) :
    Cut [(refused, body)] " failed".toList := by
  refine ⟨by decide, body_of_all h, ?_, show Plain " failed".toList by decide⟩
  intro c hc
  obtain rfl : ' ' = c := Option.some.inj hc
  decide

theorem heads_refused (body body' : Line) :
    [(refused, body)].map Prod.fst = [(refused, body')].map Prod.fst := rfl

def copied (body : Line) : List (Line × Line) :=
  [("copy rtmp".toList, "relay/live".toList), (" to rtmp".toList, body)]

theorem cut_copied {body : Line} (h : body.all (!isWhitespace ·) = true) :
    Cut (copied body) [] := by
  refine ⟨by decide, body_of_all (by decide), ?_, by decide, body_of_all h, nofun, rfl⟩
  intro c hc
  obtain rfl : ' ' = c := Option.some.inj hc
  decide

theorem bodies_without_influence_keys :
    redact (some "rtmp://relay/live".toList)
        "copy rtmp://relay/live to rtmp://host/app/one".toList =
      redact (some "rtmp://relay/live".toList)
        "copy rtmp://relay/live to rtmp://host/app/two".toList := by
  refine (bodies_without_influence (some "rtmp://relay/live".toList)).2.1
    (copied "host/app/one".toList) (copied "host/app/two".toList) []
    (cut_copied (by decide)) (cut_copied (by decide)) (.cons ⟨rfl, .inl rfl⟩ (.cons ?_ .nil))
  exact ⟨rfl, .inr (by decide)⟩

/-- The relay's URL with a colon after it is still the relay's; and a relay that is called as a
redacted URL is named the second time. -/
theorem relay_with_colon :
    (¬∀ relay urls urls' rest, Cut urls rest → Cut urls' rest →
      urls.map Prod.fst = urls'.map Prod.fst →
      (∀ u ∈ urls ++ urls', relay ≠ some (scheme u.1 ++ separator ++ u.2)) →
      redact relay (compose urls rest) = redact relay (compose urls' rest)) ∧
    ¬∀ relay line, redact relay (redact relay line) = redact relay line := by
  constructor
  · intro h
    have hsame := h (some "rtmp://relay".toList) [(refused, "relay:".toList)]
      [(refused, "other".toList)] " failed".toList (cut_refused (by decide))
      (cut_refused (by decide)) (heads_refused _ _) (by decide)
    revert hsame
    decide
  · intro h
    have hmarked : MarkedRelay (some "rtmp://<redacted>".toList) :=
      ⟨"rtmp".toList, by decide, by decide⟩
    obtain ⟨line, hline⟩ := not_redact_redact hmarked
    exact hline (h _ line)

end JamStream.Stream
