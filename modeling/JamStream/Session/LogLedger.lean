import JamStream.Foundations.Runs
import JamStream.Session.Buckets
import JamStream.Session.Fitting
import JamStream.Session.LogFrame
import JamStream.Session.Plaintext

/-! The books on the server's log. The core's thread feeds the host's link from the ring one
lock at a time: it reads the drop count, and at the next lock clears it or takes a line.
Between the two the thread that writes the log may push. Beside the core stands what was
pushed, what was queued on the host's link, and what the notices queued there add up to. -/

namespace JamStream.Session
open Protocol Foundations Relation
open Runs hiding run
variable {X : Externals}

/-- What one round of the feed sends: a word on the lines lost, or a line. -/
inductive Word
  | notice (dropped : UInt64)
  | line (text : String)
deriving DecidableEq

namespace Word

def text : Word → String
  | .notice dropped => "[" ++ toString dropped.toNat ++ " earlier server log line(s) dropped]"
  | .line text => text

def lines : Word → List String
  | .notice _ => []
  | .line text => [text]

def count : Word → ℕ
  | .notice dropped => dropped.toNat
  | .line _ => 0

end Word

namespace LogTail

/-- The word to send, by the drop count that was read; a line is taken at once. -/
def pick (dropped : UInt64) (t : LogTail) : Option (LogTail × Word) :=
  if 0 < dropped then some (t, .notice dropped)
  else
    match t.lines with
    | [] => none
    | line :: rest => some ({ t with lines := rest }, .line line)

/-- The count is cleared once a word on it has a token. -/
def settle (dropped : UInt64) (t : LogTail) : LogTail :=
  if 0 < dropped then t.clearDropped else t

theorem next_eq_pick (t : LogTail) :
    t.next = (t.pick t.dropped).map fun r => (r.1, r.2.text) := by
  unfold next pick
  split_ifs
  · rfl
  · cases t.lines <;> rfl

end LogTail

/-- What follows the feed: the rest of a tick, or of a shutdown. -/
inductive Rest
  | tick
  | shutdown (reason : String)

def Rest.finish (s : ServerCore X) (nowMs : UInt64) : Rest → ServerCore X
  | .tick => s.afterFeed nowMs
  | .shutdown reason => s.sendOff nowMs reason

/-- Where the core's thread stands: not in the feed, before a look at the ring, or with the
drop count it read. -/
inductive Feeding
  | idle
  | looking (nowMs : UInt64) (rest : Rest)
  | looked (nowMs : UInt64) (rest : Rest) (dropped : UInt64)

structure LogLedger (X : Externals) where
  core : ServerCore X
  feeding : Feeding
  pushed : List String
  queued : List String
  reported : ℕ

/-- A call on the core, or the next lock its thread takes in the feed. -/
inductive LogAct
  | call (c : Call)
  | feed

namespace LogLedger

def start (X : Externals) (cfg : ServerConfig) (jtis : List TokenId) : LogLedger X where
  core := .start X cfg (some .new) jtis
  feeding := .idle
  pushed := []
  queued := []
  reported := 0

def log (l : LogLedger X) (line : String) : LogLedger X :=
  { l with
    core := l.core.step (.log line)
    pushed := l.pushed ++ [fitServerLogLine line] }

def finish (l : LogLedger X) (nowMs : UInt64) (rest : Rest) : LogLedger X :=
  { l with core := rest.finish l.core nowMs, feeding := .idle }

def enter (l : LogLedger X) (nowMs : UInt64) (rest : Rest) : LogLedger X :=
  if l.core.isConnected hostMemberId then { l with feeding := .looking nowMs rest }
  else l.finish nowMs rest

def look (l : LogLedger X) (nowMs : UInt64) (rest : Rest) : LogLedger X :=
  match l.core.members[hostMemberId]?, l.core.logTail with
  | some host, some tail =>
    if host.link.pendingLen < serverLogHighWater then
      { l with feeding := .looked nowMs rest tail.dropped }
    else l.finish nowMs rest
  | _, _ => l.finish nowMs rest

def takes (s : ServerCore X) (word : Word) : Bool :=
  s.members[hostMemberId]?.any fun host => (host.link.send (.serverLog word.text)).isOk

def send (l : LogLedger X) (nowMs : UInt64) (rest : Rest) (dropped : UInt64) (tail : LogTail)
    (word : Word) : LogLedger X :=
  { l with
    core := { l.core with
      logBudget := (l.core.logBudget.take nowMs).1, logTail := some (tail.settle dropped) }.queue
        hostMemberId (.serverLog word.text)
    feeding := .looking nowMs rest
    queued := if takes l.core word then l.queued ++ word.lines else l.queued
    reported := if takes l.core word then l.reported + word.count else l.reported }

def withhold (l : LogLedger X) (nowMs : UInt64) (tail : LogTail) : LogLedger X :=
  { l with
    core := { l.core with
      logBudget := (l.core.logBudget.take nowMs).1, logTail := some tail } }

def round (l : LogLedger X) (nowMs : UInt64) (rest : Rest) (dropped : UInt64) : LogLedger X :=
  match l.core.logTail.bind (LogTail.pick dropped) with
  | none => l.finish nowMs rest
  | some (tail, word) =>
    if (l.core.logBudget.take nowMs).2 then l.send nowMs rest dropped tail word
    else (l.withhold nowMs tail).finish nowMs rest

/-- A call on a core whose thread is free, as far as the feed if it has one. -/
def begin (l : LogLedger X) : Call → LogLedger X
  | .log line => l.log line
  | .tick nowMs => { l with core := l.core.untilFeed nowMs }.enter nowMs .tick
  | .shutdown nowMs reason => l.enter nowMs (.shutdown reason)
  | c => { l with core := l.core.step c }

/-- The core's thread makes one call at a time; lines are written at any moment. -/
def step (l : LogLedger X) (act : LogAct) : LogLedger X :=
  match l.feeding, act with
  | .idle, .call c => l.begin c
  | .looking nowMs rest, .feed => l.look nowMs rest
  | .looked nowMs rest dropped, .feed => l.round nowMs rest dropped
  | _, .call (.log line) => l.log line
  | _, _ => l

/-- Every line pushed is in the ring, or was queued on the host's link, or is one of those
the ring's drop count and the notices queued there account for. -/
def Accounted (pushed queued : List String) (reported : ℕ) (tail : LogTail) : Prop :=
  ∃ counted : List String, pushed.Perm (counted ++ queued ++ tail.lines) ∧
    counted.length = tail.dropped.toNat + reported

def Kept (l : LogLedger X) : Prop :=
  ∃ tail, l.core.logTail = some tail ∧ Accounted l.pushed l.queued l.reported tail

/-- What spares the lines. The drop count has room for one more. The count read is still the
count when it is cleared. A line is taken only with a token there to send it. -/
def Spared (l : LogLedger X) : LogAct → Prop
  | .call (.log _) => ∀ tail ∈ l.core.logTail,
      logTailLines ≤ tail.lines.length → tail.dropped ≠ 0xFFFFFFFFFFFFFFFF
  | .feed =>
    match l.feeding with
    | .looked nowMs _ dropped => ∀ tail ∈ l.core.logTail,
        if 0 < dropped then (l.core.logBudget.take nowMs).2 = true → tail.dropped = dropped
        else tail.lines ≠ [] → (l.core.logBudget.take nowMs).2 = true
    | _ => True
  | _ => True

variable {pushed queued : List String} {reported : ℕ} {tail tail' : LogTail} {line : String}

theorem Accounted.length (h : Accounted pushed queued reported tail) :
    pushed.length = tail.dropped.toNat + reported + queued.length + tail.lines.length := by
  obtain ⟨counted, hperm, hcount⟩ := h
  rw [hperm.length_eq, List.length_append, List.length_append, hcount]

theorem toNat_add_one {n : UInt64} (h : n ≠ 0xFFFFFFFFFFFFFFFF) : (n + 1).toNat = n.toNat + 1 := by
  have hlt := n.toNat_lt
  have hne : n.toNat ≠ 2 ^ 64 - 1 := fun he => h (UInt64.toNat_inj.mp he)
  rw [UInt64.toNat_add, UInt64.toNat_one]
  omega

theorem Accounted.push_iff (h : Accounted pushed queued reported tail) (line : String) :
    Accounted (pushed ++ [fitServerLogLine line]) queued reported (tail.push line) ↔
      (logTailLines ≤ tail.lines.length → tail.dropped ≠ 0xFFFFFFFFFFFFFFFF) := by
  unfold LogTail.push
  split_ifs with hfull
  · constructor
    · intro h' _ hmax
      have hlen := h.length
      have hlen' := h'.length
      have hwrap : (tail.dropped + 1).toNat = 0 := by
        rw [hmax]
        rfl
      have hword : tail.dropped.toNat = 2 ^ 64 - 1 := by
        rw [hmax]
        rfl
      simp only [List.length_append, List.length_tail, List.length_singleton, hwrap] at hlen'
      omega
    · intro hroom
      obtain ⟨counted, hperm, hcount⟩ := h
      cases hlines : tail.lines with
      | nil =>
        rw [hlines] at hfull
        exact absurd hfull (by decide)
      | cons first rest =>
        -- the first line of the ring is now one of those counted
        refine ⟨counted ++ [first], ?_, ?_⟩
        · rw [hlines] at hperm
          have hmoved : (counted ++ queued ++ first :: rest).Perm
              (counted ++ [first] ++ queued ++ rest) := by
            have hswap : (queued ++ first :: rest).Perm (first :: (queued ++ rest)) :=
              List.perm_middle
            have hcounted := hswap.append_left counted
            simpa only [List.append_assoc, List.singleton_append, List.cons_append,
              List.nil_append] using hcounted
          have hpushed := (hperm.trans hmoved).append_right [fitServerLogLine line]
          simpa only [List.append_assoc, List.tail_cons] using hpushed
        · rw [List.length_append, List.length_singleton, hcount, toNat_add_one (hroom hfull)]
          omega
  · obtain ⟨counted, hperm, hcount⟩ := h
    refine iff_of_true ⟨counted, ?_, hcount⟩ fun hle => absurd hle hfull
    have hpushed := hperm.append_right [fitServerLogLine line]
    rwa [List.append_assoc (counted ++ queued)] at hpushed

theorem Accounted.clear_iff (h : Accounted pushed queued reported tail) (dropped : UInt64) :
    Accounted pushed queued (reported + dropped.toNat) tail.clearDropped ↔
      tail.dropped = dropped := by
  constructor
  · intro h'
    have hlen := h.length
    have hlen' := h'.length
    have hcleared : tail.clearDropped.dropped.toNat = 0 := rfl
    have hlines : tail.clearDropped.lines = tail.lines := rfl
    rw [hcleared, hlines] at hlen'
    exact UInt64.toNat_inj.mp (by omega)
  · rintro rfl
    obtain ⟨counted, hperm, hcount⟩ := h
    refine ⟨counted, hperm, ?_⟩
    rw [hcount, Nat.add_comm reported]
    exact (Nat.zero_add _).symm

theorem Accounted.queue (h : Accounted pushed queued reported tail) {rest : List String}
    (hlines : tail.lines = line :: rest) :
    Accounted pushed (queued ++ [line]) reported { tail with lines := rest } := by
  obtain ⟨counted, hperm, hcount⟩ := h
  refine ⟨counted, ?_, hcount⟩
  rw [hlines] at hperm
  simpa only [List.append_assoc, List.singleton_append] using hperm

theorem Accounted.not_taken (h : Accounted pushed queued reported tail) {rest : List String}
    (hlines : tail.lines = line :: rest) :
    ¬Accounted pushed queued reported { tail with lines := rest } := by
  intro h'
  have hlen := h.length
  have hlen' := h'.length
  rw [hlines, List.length_cons] at hlen
  simp only at hlen'
  omega

theorem kept_iff {l : LogLedger X} (htail : l.core.logTail = some tail) :
    l.Kept ↔ Accounted l.pushed l.queued l.reported tail := by
  constructor
  · rintro ⟨tail', htail', h⟩
    rwa [Option.some.inj (htail.symm.trans htail')]
  · exact fun h => ⟨tail, htail, h⟩

theorem kept_congr {l l' : LogLedger X} (htail : l'.core.logTail = l.core.logTail)
    (hpushed : l'.pushed = l.pushed) (hqueued : l'.queued = l.queued)
    (hreported : l'.reported = l.reported) : l'.Kept ↔ l.Kept := by
  unfold Kept
  rw [htail, hpushed, hqueued, hreported]

theorem kept_finish (l : LogLedger X) (nowMs : UInt64) (rest : Rest) :
    (l.finish nowMs rest).Kept ↔ l.Kept := by
  refine kept_congr ?_ rfl rfl rfl
  cases rest with
  | tick => exact ServerCore.logTail_afterFeed l.core nowMs
  | shutdown reason => exact ServerCore.logTail_sendOff l.core nowMs reason

theorem kept_enter (l : LogLedger X) (nowMs : UInt64) (rest : Rest) :
    (l.enter nowMs rest).Kept ↔ l.Kept := by
  unfold enter
  split_ifs
  · exact Iff.rfl
  · exact kept_finish l nowMs rest

theorem kept_look (l : LogLedger X) (nowMs : UInt64) (rest : Rest) :
    (l.look nowMs rest).Kept ↔ l.Kept := by
  unfold look
  split
  · split_ifs
    · exact Iff.rfl
    · exact kept_finish l nowMs rest
  · exact kept_finish l nowMs rest

/-- Lines in the ring fit the wire, and a thread about to send has room on the link. -/
structure Fits (l : LogLedger X) : Prop where
  lines : ∀ tail ∈ l.core.logTail, ∀ line ∈ tail.lines, line.utf8ByteSize ≤ maxServerLogLine
  room : ∀ nowMs rest dropped, l.feeding = .looked nowMs rest dropped →
    ∃ host, l.core.members[hostMemberId]? = some host ∧ host.link.pendingLen < serverLogHighWater

theorem utf8ByteSize_toString (n : ℕ) :
    (toString n).utf8ByteSize = (Nat.toDigits 10 n).length := by
  have hdigits : ∀ cs : List Char, (∀ c ∈ cs, c.isDigit) → utf8Len cs = cs.length := by
    intro cs hcs
    induction cs with
    | nil => rfl
    | cons c cs ih =>
      have hc : c.utf8Size = 1 := by
        have hdigit := hcs c List.mem_cons_self
        simp only [Char.isDigit, Bool.and_eq_true, decide_eq_true_eq, ge_iff_le] at hdigit
        have hlow : c.val.toNat ≤ 57 := UInt32.le_iff_toNat_le.mp hdigit.2
        refine Char.utf8Size_eq_one_iff.mpr (UInt32.le_iff_toNat_le.mpr ?_)
        exact hlow.trans (by decide)
      rw [utf8Len_cons, hc, ih fun d hd => hcs d (List.mem_cons_of_mem c hd), List.length_cons,
        Nat.add_comm]
  have hrepr : toString n = String.ofList (Nat.toDigits 10 n) := rfl
  rw [hrepr, utf8ByteSize_ofList]
  exact hdigits _ fun c hc => Nat.isDigit_of_mem_toDigits (by decide) (by decide) hc

theorem utf8ByteSize_notice (dropped : UInt64) :
    (Word.notice dropped).text.utf8ByteSize ≤ maxServerLogLine := by
  have hdigits : (Nat.toDigits 10 dropped.toNat).length ≤ 20 := by
    have hlt := dropped.toNat_lt
    exact (Nat.length_toDigits_le_iff (by decide) (by decide)).mpr (by omega)
  have hhead : ("[" : String).utf8ByteSize = 1 := by decide
  have htail : (" earlier server log line(s) dropped]" : String).utf8ByteSize = 36 := by decide
  have hcap : maxServerLogLine = 320 := rfl
  rw [Word.text, String.utf8ByteSize_append, String.utf8ByteSize_append, utf8ByteSize_toString]
  omega

theorem takes_of_room {s : ServerCore X} {host : Member X} {word : Word}
    (hhost : s.members[hostMemberId]? = some host) (hroom : host.link.pendingLen < serverLogHighWater)
    (hfits : word.text.utf8ByteSize ≤ maxServerLogLine) : takes s word = true := by
  have hchecked : checkLengths (.serverLog word.text) = .ok () :=
    refuseIf_ok.mpr (Nat.not_lt.mpr hfits)
  have hpending : ¬maxPending ≤ host.link.pending.length := by
    have hmark : serverLogHighWater ≤ maxPending := by decide
    exact Nat.not_le.mpr (Nat.lt_of_lt_of_le hroom hmark)
  have hsent : (host.link.send (.serverLog word.text)).isOk = true := by
    unfold ControlLink.send
    rw [hchecked]
    simp only
    rw [if_neg hpending]
    rfl
  unfold takes
  rw [hhost]
  exact hsent

theorem fits_start (X : Externals) (cfg : ServerConfig) (jtis : List TokenId) :
    (start X cfg jtis).Fits where
  lines tail htail line hline := by
    rw [← Option.some.inj (show some LogTail.new = some tail from htail)] at hline
    exact absurd hline List.not_mem_nil
  room _ _ _ h := Feeding.noConfusion h

theorem kept_start (X : Externals) (cfg : ServerConfig) (jtis : List TokenId) :
    (start X cfg jtis).Kept := ⟨.new, rfl, [], .refl _, rfl⟩

theorem Fits.log {l : LogLedger X} (h : l.Fits) (line : String) : (l.log line).Fits where
  lines tail htail line' hline' := by
    obtain ⟨before, hbefore, rfl⟩ := Option.map_eq_some_iff.mp htail
    have hmem : line' ∈ before.lines ∨ line' = fitServerLogLine line := by
      unfold LogTail.push at hline'
      split_ifs at hline'
      · exact (List.mem_append.mp hline').imp List.mem_of_mem_tail List.mem_singleton.mp
      · exact (List.mem_append.mp hline').imp_right List.mem_singleton.mp
    rcases hmem with hold | rfl
    · exact h.lines before hbefore line' hold
    · exact utf8ByteSize_fitServerLogLine line
  room := h.room

theorem fits_finish {l : LogLedger X} (hlines : ∀ tail ∈ l.core.logTail, ∀ line ∈ tail.lines,
    line.utf8ByteSize ≤ maxServerLogLine) (nowMs : UInt64) (rest : Rest) :
    (l.finish nowMs rest).Fits where
  lines tail htail := by
    refine hlines tail ?_
    cases rest with
    | tick => exact (ServerCore.logTail_afterFeed l.core nowMs).symm.trans htail
    | shutdown reason => exact (ServerCore.logTail_sendOff l.core nowMs reason).symm.trans htail
  room _ _ _ h := Feeding.noConfusion h

theorem Fits.enter {l : LogLedger X} (h : l.Fits) (nowMs : UInt64) (rest : Rest) :
    (l.enter nowMs rest).Fits := by
  unfold LogLedger.enter
  split_ifs
  · exact ⟨h.lines, fun _ _ _ h => Feeding.noConfusion h⟩
  · exact fits_finish h.lines nowMs rest

theorem Fits.look {l : LogLedger X} (h : l.Fits) (nowMs : UInt64) (rest : Rest) :
    (l.look nowMs rest).Fits := by
  unfold LogLedger.look
  split
  · rename_i host tail hhost _
    split_ifs with hroom
    · exact ⟨h.lines, fun _ _ _ _ => ⟨host, hhost, hroom⟩⟩
    · exact fits_finish h.lines nowMs rest
  · exact fits_finish h.lines nowMs rest

theorem Fits.with_core {l : LogLedger X} (h : l.Fits) (hidle : l.feeding = .idle)
    {s : ServerCore X} (hs : s.logTail = l.core.logTail) :
    ({ l with core := s } : LogLedger X).Fits where
  lines tail htail := h.lines tail (hs.symm.trans htail)
  room _ _ _ hlooked := Feeding.noConfusion (hidle.symm.trans hlooked)

theorem Fits.pick {l : LogLedger X} (h : l.Fits) {dropped : UInt64} {tail : LogTail} {word : Word}
    (hpick : l.core.logTail.bind (LogTail.pick dropped) = some (tail, word)) :
    word.text.utf8ByteSize ≤ maxServerLogLine ∧
      ∀ line ∈ tail.lines, line.utf8ByteSize ≤ maxServerLogLine := by
  obtain ⟨before, hbefore, hpicked⟩ := Option.bind_eq_some_iff.mp hpick
  have hlines := h.lines before hbefore
  unfold LogTail.pick at hpicked
  split_ifs at hpicked
  · cases hpicked
    exact ⟨utf8ByteSize_notice dropped, hlines⟩
  · cases hring : before.lines with
    | nil =>
      rw [hring] at hpicked
      cases hpicked
    | cons first rest =>
      rw [hring] at hpicked hlines
      cases hpicked
      exact ⟨hlines first List.mem_cons_self, fun line hline =>
        hlines line (List.mem_cons_of_mem first hline)⟩

theorem lines_settle (dropped : UInt64) (tail : LogTail) :
    (tail.settle dropped).lines = tail.lines := by
  unfold LogTail.settle
  split_ifs <;> rfl

theorem Fits.round {l : LogLedger X} (h : l.Fits) (nowMs : UInt64) (rest : Rest)
    (dropped : UInt64) : (l.round nowMs rest dropped).Fits := by
  unfold LogLedger.round
  split
  · exact fits_finish h.lines nowMs rest
  · rename_i tail word hpick
    have hlines := (h.pick hpick).2
    split_ifs
    · refine ⟨fun left hleft line hline => ?_, fun _ _ _ h => Feeding.noConfusion h⟩
      have hsettled : tail.settle dropped = left := Option.some.inj hleft
      rw [← hsettled, lines_settle] at hline
      exact hlines line hline
    · apply fits_finish
      intro left hleft line hline
      have hsame : tail = left := Option.some.inj hleft
      rw [← hsame] at hline
      exact hlines line hline

theorem kept_send_notice {l : LogLedger X} {nowMs : UInt64} {rest : Rest} {dropped : UInt64}
    (hdropped : 0 < dropped) (htakes : takes l.core (.notice dropped) = true)
    (h : Accounted l.pushed l.queued l.reported tail) :
    (l.send nowMs rest dropped tail (.notice dropped)).Kept ↔ tail.dropped = dropped := by
  have hring : (l.send nowMs rest dropped tail (.notice dropped)).core.logTail =
      some tail.clearDropped := congrArg some (if_pos hdropped)
  have hqueued : (l.send nowMs rest dropped tail (.notice dropped)).queued = l.queued :=
    (if_pos htakes).trans (List.append_nil _)
  have hreported : (l.send nowMs rest dropped tail (.notice dropped)).reported =
      l.reported + dropped.toNat := if_pos htakes
  rw [kept_iff hring, hqueued, hreported]
  exact h.clear_iff dropped

theorem kept_send_line {l : LogLedger X} {nowMs : UInt64} {rest : Rest} {lines : List String}
    (htakes : takes l.core (.line line) = true) (h : Accounted l.pushed l.queued l.reported tail)
    (hlines : tail.lines = line :: lines) :
    (l.send nowMs rest 0 { tail with lines } (.line line)).Kept := by
  have hqueued : (l.send nowMs rest 0 { tail with lines } (.line line)).queued =
      l.queued ++ [line] := if_pos htakes
  have hreported : (l.send nowMs rest 0 { tail with lines } (.line line)).reported = l.reported :=
    (if_pos htakes).trans (Nat.add_zero _)
  refine ⟨{ tail with lines }, rfl, ?_⟩
  rw [hqueued, hreported]
  exact h.queue hlines

/-- A round loses nothing exactly when the count it clears is the count it read, and the
line it takes has a token. -/
theorem kept_round_iff {l : LogLedger X} (hkept : l.Kept) (hfits : l.Fits) {nowMs : UInt64}
    {rest : Rest} {dropped : UInt64} (hlooked : l.feeding = .looked nowMs rest dropped) :
    (l.round nowMs rest dropped).Kept ↔ ∀ tail ∈ l.core.logTail,
      if 0 < dropped then (l.core.logBudget.take nowMs).2 = true → tail.dropped = dropped
      else tail.lines ≠ [] → (l.core.logBudget.take nowMs).2 = true := by
  obtain ⟨host, hhost, hroom⟩ := hfits.room nowMs rest dropped hlooked
  have hkept' := hkept
  obtain ⟨tail, htail, hbooks⟩ := hkept
  have hfit := hfits.lines tail htail
  unfold LogLedger.round
  rw [htail, Option.bind_some]
  simp only [Option.mem_some_iff, forall_eq']
  by_cases hdropped : 0 < dropped
  · have hpick : tail.pick dropped = some (tail, .notice dropped) := if_pos hdropped
    have htakes : takes l.core (.notice dropped) = true :=
      takes_of_room hhost hroom (utf8ByteSize_notice dropped)
    rw [hpick, if_pos hdropped]
    simp only
    split_ifs with htoken
    · exact (kept_send_notice hdropped htakes hbooks).trans ⟨fun h _ => h, fun h => h htoken⟩
    · -- no word, but nothing was taken for it either
      refine iff_of_true ?_ fun h => absurd h htoken
      have hsame : (l.withhold nowMs tail).Kept := ⟨tail, rfl, hbooks⟩
      exact (kept_finish _ nowMs rest).mpr hsame
  · obtain rfl : dropped = 0 := UInt64.le_zero_iff.mp (UInt64.not_lt.mp hdropped)
    rw [if_neg hdropped]
    cases hlines : tail.lines with
    | nil =>
      have hpick : tail.pick 0 = none := by
        rw [LogTail.pick, if_neg hdropped, hlines]
      rw [hpick]
      exact iff_of_true ((kept_finish l nowMs rest).mpr hkept') fun h => absurd rfl h
    | cons line lines =>
      have hpick : tail.pick 0 = some ({ tail with lines }, .line line) := by
        rw [LogTail.pick, if_neg hdropped, hlines]
      have hshort : line.utf8ByteSize ≤ maxServerLogLine :=
        hfit line (hlines ▸ List.mem_cons_self)
      rw [hpick]
      simp only
      split_ifs with htoken
      · have htakes : takes l.core (.line line) = true := takes_of_room hhost hroom hshort
        exact iff_of_true (kept_send_line htakes hbooks hlines) fun _ => htoken
      · -- the line has left the ring, and goes nowhere
        refine iff_of_false (fun hlost => ?_) fun h => htoken (h (List.cons_ne_nil _ _))
        have hlost' := (kept_finish (l.withhold nowMs { tail with lines }) nowMs rest).mp hlost
        obtain ⟨left, hleft, hcounted⟩ := hlost'
        obtain rfl : { tail with lines } = left := Option.some.inj hleft
        exact hbooks.not_taken hlines hcounted

theorem kept_log_iff {l : LogLedger X} (hkept : l.Kept) (line : String) :
    (l.log line).Kept ↔ ∀ tail ∈ l.core.logTail,
      logTailLines ≤ tail.lines.length → tail.dropped ≠ 0xFFFFFFFFFFFFFFFF := by
  obtain ⟨tail, htail, hbooks⟩ := hkept
  have hring : (l.log line).core.logTail = some (tail.push line) := by
    show l.core.logTail.map (fun t => t.push line) = some (tail.push line)
    rw [htail]
    rfl
  rw [kept_iff hring, htail]
  simp only [Option.mem_some_iff, forall_eq']
  exact hbooks.push_iff line

theorem begin_keeps {c : Call} (hc : ∀ line, c ≠ .log line) {l : LogLedger X}
    (hidle : l.feeding = .idle) :
    ((l.begin c).Kept ↔ l.Kept) ∧ (l.Fits → (l.begin c).Fits) := by
  have hstep : ∀ s : ServerCore X, s.logTail = l.core.logTail →
      (({ l with core := s } : LogLedger X).Kept ↔ l.Kept) ∧
        (l.Fits → ({ l with core := s } : LogLedger X).Fits) :=
    fun s hs => ⟨kept_congr hs rfl rfl rfl, fun h => h.with_core hidle hs⟩
  have hother : (∀ nowMs, c ≠ .tick nowMs) → (∀ nowMs reason, c ≠ .shutdown nowMs reason) →
      (l.core.step c).logTail = l.core.logTail :=
    fun htick hdown => ServerCore.logTail_step l.core htick hdown hc
  cases c with
  | log line => exact absurd rfl (hc line)
  | tick nowMs =>
    have hbefore := hstep _ (ServerCore.logTail_untilFeed l.core nowMs)
    exact ⟨(kept_enter _ nowMs .tick).trans hbefore.1, fun h => (hbefore.2 h).enter nowMs .tick⟩
  | shutdown nowMs reason =>
    exact ⟨kept_enter l nowMs (.shutdown reason), fun h => h.enter nowMs (.shutdown reason)⟩
  | _ => exact hstep _ (hother (fun _ h => Call.noConfusion h) fun _ _ h => Call.noConfusion h)

theorem step_log (l : LogLedger X) (line : String) : l.step (.call (.log line)) = l.log line := by
  unfold step
  cases l.feeding <;> rfl

theorem step_call {c : Call} (hc : ∀ line, c ≠ .log line) (l : LogLedger X) :
    l.feeding = .idle ∧ l.step (.call c) = l.begin c ∨ l.step (.call c) = l := by
  unfold step
  cases l.feeding with
  | idle => exact .inl ⟨rfl, rfl⟩
  | _ =>
    refine .inr ?_
    cases c with
    | log line => exact absurd rfl (hc line)
    | _ => rfl

theorem spared_call {c : Call} (hc : ∀ line, c ≠ .log line) (l : LogLedger X) :
    l.Spared (.call c) := by
  cases c with
  | log line => exact absurd rfl (hc line)
  | _ => trivial

theorem step_feed (l : LogLedger X) : l.step .feed = match l.feeding with
    | .idle => l
    | .looking nowMs rest => l.look nowMs rest
    | .looked nowMs rest dropped => l.round nowMs rest dropped := by
  unfold step
  cases l.feeding <;> rfl

theorem kept_step_iff {l : LogLedger X} (hkept : l.Kept) (hfits : l.Fits) (act : LogAct) :
    (l.step act).Kept ↔ l.Spared act := by
  cases act with
  | call c =>
    by_cases hlog : ∃ line, c = .log line
    · obtain ⟨line, rfl⟩ := hlog
      rw [step_log]
      exact kept_log_iff hkept line
    · have hc : ∀ line, c ≠ .log line := fun line h => hlog ⟨line, h⟩
      refine iff_of_true ?_ (spared_call hc l)
      rcases step_call hc l with ⟨hidle, hstep⟩ | hstep
      · rw [hstep]
        exact (begin_keeps hc hidle).1.mpr hkept
      · rwa [hstep]
  | feed =>
    rw [step_feed, Spared]
    cases hfeeding : l.feeding with
    | idle => exact iff_of_true hkept trivial
    | looking nowMs rest => exact iff_of_true ((kept_look l nowMs rest).mpr hkept) trivial
    | looked nowMs rest dropped => exact kept_round_iff hkept hfits hfeeding

theorem Fits.step {l : LogLedger X} (h : l.Fits) (act : LogAct) : (l.step act).Fits := by
  cases act with
  | call c =>
    by_cases hlog : ∃ line, c = .log line
    · obtain ⟨line, rfl⟩ := hlog
      rw [step_log]
      exact h.log line
    · have hc : ∀ line, c ≠ .log line := fun line h => hlog ⟨line, h⟩
      rcases step_call hc l with ⟨hidle, hstep⟩ | hstep
      · rw [hstep]
        exact (begin_keeps hc hidle).2 h
      · rwa [hstep]
  | feed =>
    rw [step_feed]
    cases l.feeding with
    | idle => exact h
    | looking nowMs rest => exact h.look nowMs rest
    | looked nowMs rest dropped => exact h.round nowMs rest dropped

/-- Acts of the core's thread alone, up to its leaving the feed with a core of its own. -/
def FeedsTo (l : LogLedger X) (s : ServerCore X) : Prop :=
  ∃ n, (Runs.run step l (List.replicate n .feed)).feeding = .idle ∧
    (Runs.run step l (List.replicate n .feed)).core = s

theorem FeedsTo.of_idle {l : LogLedger X} (hidle : l.feeding = .idle) : FeedsTo l l.core :=
  ⟨0, hidle, rfl⟩

theorem FeedsTo.of_step {l : LogLedger X} {s : ServerCore X} (h : FeedsTo (l.step .feed) s) :
    FeedsTo l s := by
  obtain ⟨n, hidle, hcore⟩ := h
  exact ⟨n + 1, hidle, hcore⟩

theorem settle_picked {tail tail' : LogTail} {word : Word}
    (hpick : tail.pick tail.dropped = some (tail', word)) :
    tail'.settle tail.dropped = tail'.clearDropped := by
  unfold LogTail.pick at hpick
  unfold LogTail.settle
  split_ifs at hpick ⊢ with hdropped
  · rfl
  · have hzero : tail.dropped = 0 := UInt64.le_zero_iff.mp (UInt64.not_lt.mp hdropped)
    cases hlines : tail.lines with
    | nil =>
      rw [hlines] at hpick
      cases hpick
    | cons line rest =>
      rw [hlines] at hpick
      cases hpick
      rw [LogTail.clearDropped, ← hzero]

theorem feedsTo_feedServerLogFrom (nowMs : UInt64) (rest : Rest) (n : ℕ) (l : LogLedger X)
    (hlooking : l.feeding = .looking nowMs rest)
    (hn : (l.core.logBudget.refill nowMs).tokens.toNat < n) :
    FeedsTo l (rest.finish (l.core.feedServerLogFrom nowMs n) nowMs) := by
  induction n generalizing l with
  | zero => exact absurd hn (Nat.not_lt_zero _)
  | succ n ih =>
    have hlook : l.step .feed = l.look nowMs rest := by
      rw [step_feed, hlooking]
    have hout : l.look nowMs rest = l.finish nowMs rest →
        FeedsTo l (rest.finish l.core nowMs) := by
      intro hfinish
      apply FeedsTo.of_step
      rw [hlook, hfinish]
      exact .of_idle rfl
    rw [ServerCore.feedServerLogFrom]
    cases hhost : l.core.members[hostMemberId]? with
    | none =>
      simp only
      apply hout
      rw [look, hhost]
    | some host =>
      cases htail : l.core.logTail with
      | none =>
        simp only [Option.bind_none]
        apply hout
        rw [look, hhost, htail]
      | some tail =>
        by_cases hroom : host.link.pendingLen < serverLogHighWater
        · apply FeedsTo.of_step
          have hlooked : l.look nowMs rest =
              { l with feeding := .looked nowMs rest tail.dropped } := by
            rw [look, hhost, htail]
            exact if_pos hroom
          rw [hlook, hlooked]
          apply FeedsTo.of_step
          rw [step_feed]
          simp only [LogLedger.round]
          rw [htail, Option.bind_some, Option.bind_some, LogTail.next_eq_pick]
          cases hpick : tail.pick tail.dropped with
          | none => exact .of_idle rfl
          | some r =>
            simp only [Option.map_some]
            rw [if_pos hroom]
            split_ifs with htoken
            · have hfewer := TokenBucket.tokens_take_lt htoken
              have hrest := ih (LogLedger.send { l with feeding := .looked nowMs rest tail.dropped }
                nowMs rest tail.dropped r.1 r.2) rfl (by
                  show ((l.core.logBudget.take nowMs).1.refill nowMs).tokens.toNat < n
                  omega)
              rw [LogLedger.send] at hrest ⊢
              rw [settle_picked hpick] at hrest ⊢
              exact hrest
            · exact .of_idle rfl
        · have hfinish : FeedsTo l (rest.finish l.core nowMs) := by
            apply hout
            rw [look, hhost, htail]
            exact if_neg hroom
          rw [Option.bind_some]
          cases tail.next with
          | none => exact hfinish
          | some r =>
            simp only
            rwa [if_neg hroom]

theorem feedsTo_step {l : LogLedger X} (hidle : l.feeding = .idle) (c : Call) :
    FeedsTo (l.step (.call c)) (l.core.step c) := by
  have henter : ∀ (m : LogLedger X) (nowMs : UInt64) (rest : Rest),
      FeedsTo (m.enter nowMs rest) (rest.finish (m.core.feedServerLog nowMs) nowMs) := by
    intro m nowMs rest
    unfold LogLedger.enter ServerCore.feedServerLog
    split_ifs
    · exact feedsTo_feedServerLogFrom nowMs rest _ _ rfl (Nat.lt_succ_self _)
    · exact .of_idle rfl
  have hbegin : l.step (.call c) = l.begin c := by
    unfold step
    rw [hidle]
  rw [hbegin]
  cases c with
  | tick nowMs =>
    rw [ServerCore.step_tick]
    exact henter { l with core := l.core.untilFeed nowMs } nowMs .tick
  | shutdown nowMs reason =>
    rw [ServerCore.step_shutdown]
    exact henter l nowMs (.shutdown reason)
  | _ => exact ⟨0, hidle, rfl⟩

/-- No line of a run vanishes uncounted exactly when each act of it spares the lines. -/
theorem lines_kept_iff (X : Externals) (cfg : ServerConfig) (jtis : List TokenId)
    (acts : List LogAct) :
    Throughout step Kept (start X cfg jtis) acts ↔ Meets step Spared (start X cfg jtis) acts := by
  have hsound : (start X cfg jtis).Kept ∧ (start X cfg jtis).Fits :=
    ⟨kept_start X cfg jtis, fits_start X cfg jtis⟩
  refine throughout_iff_meets (I := fun l : LogLedger X => l.Kept ∧ l.Fits) (fun l h => h.1) ?_ ?_ hsound
  · rintro l act ⟨hkept, hfits⟩ hspared
    exact ⟨(kept_step_iff hkept hfits act).mpr hspared, hfits.step act⟩
  · rintro l act ⟨hkept, hfits⟩ hafter
    exact (kept_step_iff hkept hfits act).mp hafter

/-- The host joins and more lines are written than the budget has tokens. Twice the host
acknowledges all that came. -/
def burst : List LogAct :=
  let round (counter : UInt64) : List LogAct :=
    .call (.tick 5) :: List.replicate 33 .feed ++ [.call (.handleDatagram 5 0 (Plaintext.addrOf 0)
      (Plaintext.packetOf 0 counter { ack := 1000, ackBits := 0, frame := none }) [])]
  [.call (.handleDatagram 0 0 (Plaintext.addrOf 0) (Plaintext.initOf 0 .musician) [])] ++
    List.replicate 40 (.call (.log "line")) ++ round 0 ++ round 1 ++ round 2

/-- The third feed takes a line with no token left, and the line is nowhere. -/
theorem lines_kept_burst :
    ¬∀ (X : Externals) (cfg : ServerConfig) (jtis : List TokenId) (acts : List LogAct),
      Throughout step Kept (start X cfg jtis) acts := by
  intro h
  have hkept := (h plaintext Plaintext.config [] burst).last
  have hrun : let l := Runs.run step (start plaintext Plaintext.config []) burst
      l.core.logTail.map (fun tail => (tail.dropped, tail.lines.length)) = some (0, 7) ∧
        l.pushed.length = 40 ∧ l.reported = 0 ∧ l.queued.length = 32 := by
    decide +kernel
  generalize Runs.run step (start plaintext Plaintext.config []) burst = l at hkept hrun
  obtain ⟨tail, htail, hbooks⟩ := hkept
  obtain ⟨hring, hpushed, hreported, hqueued⟩ := hrun
  have hlen := hbooks.length
  rw [htail, Option.map_some, Option.some.injEq, Prod.mk.injEq] at hring
  rw [hring.1, hring.2, hpushed, hreported, hqueued] at hlen
  exact absurd hlen (by decide)

end LogLedger
end JamStream.Session
