import JamStream.Foundations.Runs
import JamStream.Protocol.Transport
import JamStream.Session.Plaintext

/-! The replay window against the whole history of counters: its bits are the counters
accepted among the last 64, and what it forgets is out of the window. -/

namespace JamStream.Protocol
open Runs

namespace ReplayWindow

def offer (s : ReplayWindow × List UInt64) (counter : UInt64) : ReplayWindow × List UInt64 :=
  ((s.1.accept counter).1, if (s.1.accept counter).2 then s.2 ++ [counter] else s.2)

/-- The window stands for a history: its bit `k` is the counter `k` below the highest. -/
structure Tracks (w : ReplayWindow) (accepted : List UInt64) : Prop where
  idle : w.any = false → accepted = []
  mem : w.any = true → w.highest ∈ accepted
  top : ∀ a ∈ accepted, a.toNat ≤ w.highest.toNat
  bits : w.any = true → ∀ k < 64, w.bitmap.toNat.testBit k = true ↔
    ∃ a ∈ accepted, a.toNat + k = w.highest.toNat

variable {w : ReplayWindow} {accepted : List UInt64} {counter : UInt64}

theorem testBit_one (k : ℕ) : Nat.testBit 1 k = decide (k = 0) := by
  rw [Bool.eq_iff_iff, Nat.testBit_one_eq_true_iff_self_eq_zero, decide_eq_true_eq]

theorem testBit_or_one (n k : ℕ) :
    (n ||| 1).testBit k = (n.testBit k || decide (k = 0)) := by
  rw [Nat.testBit_or, testBit_one]

theorem testBit_shifted (bitmap shift : UInt64) (hshift : shift.toNat < 64) {k : ℕ} (hk : k < 64) :
    (bitmap <<< shift).toNat.testBit k =
      (decide (shift.toNat ≤ k) && bitmap.toNat.testBit (k - shift.toNat)) := by
  rw [UInt64.toNat_shiftLeft, Nat.mod_eq_of_lt hshift, Nat.testBit_mod_two_pow,
    Nat.testBit_shiftLeft]
  simp [hk]

theorem testBit_one_shifted (offset : UInt64) (hoffset : offset.toNat < 64) {k : ℕ} (hk : k < 64) :
    ((1 : UInt64) <<< offset).toNat.testBit k = decide (k = offset.toNat) := by
  rw [testBit_shifted 1 offset hoffset hk]
  have hone : (1 : UInt64).toNat.testBit (k - offset.toNat) = decide (k - offset.toNat = 0) :=
    testBit_one _
  rw [hone, Bool.eq_iff_iff]
  simp only [Bool.and_eq_true, decide_eq_true_eq]
  omega

theorem and_one_shifted_iff (bitmap offset : UInt64) (hoffset : offset.toNat < 64) :
    bitmap &&& (1 <<< offset) ≠ 0 ↔ bitmap.toNat.testBit offset.toNat = true := by
  have hbit : (bitmap &&& (1 <<< offset)).toNat.testBit offset.toNat =
      bitmap.toNat.testBit offset.toNat := by
    rw [UInt64.toNat_and, Nat.testBit_and, testBit_one_shifted offset hoffset hoffset]
    simp
  rw [← hbit]
  constructor
  · intro hne
    by_contra hclear
    refine hne (UInt64.toNat_inj.mp (Nat.eq_of_testBit_eq fun k => ?_))
    rw [UInt64.toNat_and, Nat.testBit_and]
    by_cases hk : k < 64
    · rw [testBit_one_shifted offset hoffset hk]
      by_cases hsame : k = offset.toNat
      · subst hsame
        rw [UInt64.toNat_and, Nat.testBit_and, testBit_one_shifted offset hoffset hk] at hclear
        simpa using hclear
      · simp [hsame]
    · have hlarge : bitmap.toNat.testBit k = false := Nat.testBit_lt_two_pow
        (lt_of_lt_of_le bitmap.toNat_lt (Nat.pow_le_pow_right (by decide) (Nat.not_lt.mp hk)))
      simp [hlarge]
  · rintro hset hzero
    rw [hzero] at hset
    simp at hset

theorem exists_mem_snoc (accepted : List UInt64) (counter : UInt64) (k : ℕ) :
    (∃ a ∈ accepted ++ [counter], a.toNat + k = counter.toNat) ↔
      (∃ a ∈ accepted, a.toNat + k = counter.toNat) ∨ k = 0 := by
  constructor
  · rintro ⟨a, ha, hsum⟩
    rcases List.mem_append.mp ha with hold | hnew
    · exact .inl ⟨a, hold, hsum⟩
    · rw [List.mem_singleton.mp hnew] at hsum
      exact .inr (by omega)
  · rintro (⟨a, ha, hsum⟩ | rfl)
    · exact ⟨a, List.mem_append_left _ ha, hsum⟩
    · exact ⟨counter, List.mem_append_right _ (List.mem_singleton.mpr rfl), rfl⟩

theorem tracks_above (h : w.Tracks accepted) (hany : w.any = true)
    (hlt : w.highest < counter) :
    (w.accept counter).2 = true ∧ (w.accept counter).1.Tracks (accepted ++ [counter]) := by
  have hlt' : w.highest.toNat < counter.toNat := UInt64.lt_iff_toNat_lt.mp hlt
  have hshift : (counter - w.highest).toNat = counter.toNat - w.highest.toNat :=
    UInt64.toNat_sub_of_le _ _ (UInt64.le_of_lt hlt)
  have hstate : w.accept counter = ({ w with
      bitmap := (if window ≤ counter - w.highest then 0
        else w.bitmap <<< (counter - w.highest)) ||| 1
      highest := counter }, true) := by
    rw [accept, hany, if_neg (by decide), if_pos hlt]
  rw [hstate]
  refine ⟨rfl, ?_, ?_, ?_, ?_⟩
  · intro hidle
    rw [show w.any = false from hidle] at hany
    exact nomatch hany
  · exact fun _ => List.mem_append_right _ (List.mem_singleton.mpr rfl)
  · intro a ha
    rcases List.mem_append.mp ha with hold | hnew
    · exact le_of_lt (lt_of_le_of_lt (h.top a hold) hlt')
    · rw [List.mem_singleton.mp hnew]
  · intro _ k hk
    show (UInt64.toNat (_ ||| 1)).testBit k = true ↔ _
    rw [UInt64.toNat_or, show (1 : UInt64).toNat = 1 from rfl, testBit_or_one,
      exists_mem_snoc, Bool.or_eq_true, decide_eq_true_eq]
    refine or_congr_left ?_
    have hwindow : window ≤ counter - w.highest ↔ 64 ≤ counter.toNat - w.highest.toNat := by
      rw [UInt64.le_iff_toNat_le, hshift]
      rfl
    by_cases hfar : window ≤ counter - w.highest
    · rw [if_pos hfar]
      have hfar' := hwindow.mp hfar
      apply iff_of_false
      · simp
      · rintro ⟨a, ha, hsum⟩
        have htop := h.top a ha
        omega
    · rw [if_neg hfar]
      have hnear : (counter - w.highest).toNat < 64 := by
        rw [hshift]
        exact Nat.not_le.mp fun hle => hfar (hwindow.mpr hle)
      rw [testBit_shifted _ _ hnear hk, Bool.and_eq_true, decide_eq_true_eq, hshift]
      rw [h.bits hany _ (lt_of_le_of_lt (Nat.sub_le k _) hk)]
      constructor
      · rintro ⟨hle, a, ha, hsum⟩
        have hsum' : a.toNat + k = counter.toNat := by omega
        exact ⟨a, ha, hsum'⟩
      · rintro ⟨a, ha, hsum⟩
        have htop := h.top a ha
        have hle : counter.toNat - w.highest.toNat ≤ k := by omega
        have hsum' : a.toNat + (k - (counter.toNat - w.highest.toNat)) = w.highest.toNat := by
          omega
        exact ⟨hle, a, ha, hsum'⟩

theorem tracks_below (h : w.Tracks accepted) (hany : w.any = true)
    (hle : ¬w.highest < counter) :
    ((w.accept counter).2 = true ↔
      counter ∉ accepted ∧ w.highest.toNat < counter.toNat + 64) ∧
    (w.accept counter).1.Tracks
      (if (w.accept counter).2 then accepted ++ [counter] else accepted) := by
  have hle' : counter.toNat ≤ w.highest.toNat :=
    Nat.not_lt.mp fun hlt => hle (UInt64.lt_iff_toNat_lt.mpr hlt)
  have hoffset : (w.highest - counter).toNat = w.highest.toNat - counter.toNat :=
    UInt64.toNat_sub_of_le _ _ (UInt64.le_iff_toNat_le.mpr hle')
  have hwindow : window ≤ w.highest - counter ↔ 64 ≤ w.highest.toNat - counter.toNat := by
    rw [UInt64.le_iff_toNat_le, hoffset]
    rfl
  by_cases hfar : window ≤ w.highest - counter
  · have hstate : w.accept counter = (w, false) := by
      rw [accept, hany, if_neg (by decide), if_neg hle]
      exact if_pos hfar
    rw [hstate]
    refine ⟨iff_of_false Bool.false_ne_true fun hin => ?_, h⟩
    have hfar' := hwindow.mp hfar
    omega
  have hnear : (w.highest - counter).toNat < 64 := by
    rw [hoffset]
    exact Nat.not_le.mp fun hle => hfar (hwindow.mpr hle)
  have hseen : w.bitmap &&& (1 <<< (w.highest - counter)) ≠ 0 ↔ counter ∈ accepted := by
    rw [and_one_shifted_iff _ _ hnear, h.bits hany _ hnear, hoffset]
    constructor
    · rintro ⟨a, ha, hsum⟩
      have hsame : a = counter := UInt64.toNat_inj.mp (by omega)
      exact hsame ▸ ha
    · exact fun hmem => ⟨counter, hmem, by omega⟩
  by_cases hold : w.bitmap &&& (1 <<< (w.highest - counter)) ≠ 0
  · have hstate : w.accept counter = (w, false) := by
      rw [accept, hany, if_neg (by decide), if_neg hle]
      exact (if_neg hfar).trans (if_pos hold)
    rw [hstate]
    exact ⟨iff_of_false Bool.false_ne_true fun hin => hin.1 (hseen.mp hold), h⟩
  · have hstate : w.accept counter =
        ({ w with bitmap := w.bitmap ||| (1 <<< (w.highest - counter)) }, true) := by
      rw [accept, hany, if_neg (by decide), if_neg hle]
      exact (if_neg hfar).trans (if_neg hold)
    rw [hstate]
    refine ⟨iff_of_true rfl ⟨fun hmem => hold (hseen.mpr hmem), by omega⟩, ?_⟩
    refine ⟨fun hidle => ?_, fun hany => List.mem_append_left _ (h.mem hany), ?_, ?_⟩
    · rw [show w.any = false from hidle] at hany
      exact nomatch hany
    · intro a ha
      rcases List.mem_append.mp ha with hmem | hnew
      · exact h.top a hmem
      · rw [List.mem_singleton.mp hnew]
        exact hle'
    · intro _ k hk
      show (UInt64.toNat (_ ||| _)).testBit k = true ↔ _
      rw [UInt64.toNat_or, Nat.testBit_or, testBit_one_shifted _ hnear hk, Bool.or_eq_true,
        decide_eq_true_eq, h.bits hany k hk, hoffset]
      constructor
      · rintro (⟨a, ha, hsum⟩ | rfl)
        · exact ⟨a, List.mem_append_left _ ha, hsum⟩
        · exact ⟨counter, List.mem_append_right _ (List.mem_singleton.mpr rfl), by
            show counter.toNat + (w.highest.toNat - counter.toNat) = w.highest.toNat
            omega⟩
      · rintro ⟨a, ha, hsum⟩
        rcases List.mem_append.mp ha with hmem | hnew
        · exact .inl ⟨a, hmem, hsum⟩
        · rw [List.mem_singleton.mp hnew] at hsum
          have hsum' : counter.toNat + k = w.highest.toNat := hsum
          exact .inr (by omega)

theorem tracks_first (counter : UInt64) (hany : w.any = false) :
    (w.accept counter).2 = true ∧ (w.accept counter).1.Tracks [counter] := by
  have hstate : w.accept counter = ({ highest := counter, bitmap := 1, any := true }, true) := by
    rw [accept, hany]
    rfl
  rw [hstate]
  refine ⟨rfl, fun hidle => (nomatch hidle), fun _ => List.mem_singleton.mpr rfl, ?_, ?_⟩
  · intro a ha
    rw [List.mem_singleton.mp ha]
  · intro _ k _
    have hone : (1 : UInt64).toNat.testBit k = decide (k = 0) := testBit_one k
    show (1 : UInt64).toNat.testBit k = true ↔ _
    rw [hone, decide_eq_true_eq]
    constructor
    · rintro rfl
      exact ⟨counter, List.mem_singleton.mpr rfl, rfl⟩
    · rintro ⟨a, ha, hsum⟩
      rw [List.mem_singleton.mp ha] at hsum
      have hsum' : counter.toNat + k = counter.toNat := hsum
      omega

/-- What is fresh: not accepted before, and less than 64 behind everything accepted. -/
def Fresh (accepted : List UInt64) (counter : UInt64) : Prop :=
  counter ∉ accepted ∧ ∀ highest ∈ accepted, (∀ a ∈ accepted, a ≤ highest) →
    highest.toNat < counter.toNat + 64

theorem fresh_iff (h : w.Tracks accepted) (hany : w.any = true) :
    Fresh accepted counter ↔ counter ∉ accepted ∧ w.highest.toNat < counter.toNat + 64 := by
  have htop : ∀ a ∈ accepted, a ≤ w.highest := fun a ha => UInt64.le_iff_toNat_le.mpr (h.top a ha)
  refine and_congr_right fun _ => ⟨fun hall => hall _ (h.mem hany) htop, fun hin highest hmem _ => ?_⟩
  exact lt_of_le_of_lt (h.top highest hmem) hin

/-- One counter offered: the verdict is what the history says, and the window stands for the
history after it. -/
theorem tracks_offer (h : w.Tracks accepted) (counter : UInt64) :
    ((w.accept counter).2 = true ↔ Fresh accepted counter) ∧
      (offer (w, accepted) counter).1.Tracks (offer (w, accepted) counter).2 := by
  rcases hany : w.any with _ | _
  · obtain rfl := h.idle hany
    obtain ⟨haccepts, htracks⟩ := tracks_first counter hany
    refine ⟨iff_of_true haccepts ⟨List.not_mem_nil, fun _ hmem => absurd hmem List.not_mem_nil⟩, ?_⟩
    show (w.accept counter).1.Tracks (if (w.accept counter).2 then [] ++ [counter] else [])
    rw [if_pos haccepts]
    exact htracks
  · rw [fresh_iff h hany]
    by_cases hlt : w.highest < counter
    · obtain ⟨haccepts, htracks⟩ := tracks_above h hany hlt
      have hlt' : w.highest.toNat < counter.toNat := UInt64.lt_iff_toNat_lt.mp hlt
      refine ⟨iff_of_true haccepts ⟨fun hmem => ?_, by omega⟩, ?_⟩
      · have hle := h.top counter hmem
        omega
      · show (w.accept counter).1.Tracks (if (w.accept counter).2 then _ else _)
        rw [if_pos haccepts]
        exact htracks
    · exact tracks_below h hany hlt

theorem tracks_run (counters : List UInt64) :
    (run offer (new, []) counters).1.Tracks (run offer (new, []) counters).2 := by
  apply run_invariant (P := fun s : ReplayWindow × List UInt64 => s.1.Tracks s.2)
  · exact fun s counter h => (tracks_offer h counter).2
  · exact ⟨fun _ => rfl, fun h => (nomatch h), fun _ h => absurd h List.not_mem_nil,
      fun h => (nomatch h)⟩

end ReplayWindow

namespace Session
variable {X : Crypto}

def opens : Session X → List (UInt64 × Bytes) → List (Except Error Bytes)
  | _, [] => []
  | s, packet :: packets =>
    (s.openPacket packet.1 packet.2).2 :: (s.openPacket packet.1 packet.2).1.opens packets

theorem openPacket_unread {s : Session X} {counter : UInt64} {ciphertext : Bytes}
    (h : X.readTransport s.ts counter ciphertext = none) :
    s.openPacket counter ciphertext = (s, .error .decrypt) := by
  rw [openPacket, h]

end Session

/-- A counter is accepted exactly if it was not before and is less than 64 behind the highest
that was; a packet that does not decrypt changes neither the window nor any later answer. -/
theorem accept_exact :
    (∀ (counters : List UInt64) (counter : UInt64),
      ((run ReplayWindow.offer (.new, []) counters).1.accept counter).2 = true ↔
        ReplayWindow.Fresh (run ReplayWindow.offer (.new, []) counters).2 counter) ∧
    ∀ (X : Crypto) (s : Session X) (counter : UInt64) (ciphertext : Bytes),
      X.readTransport s.ts counter ciphertext = none →
        (s.openPacket counter ciphertext).1.replay = s.replay ∧
          ∀ packets, (s.openPacket counter ciphertext).1.opens packets = s.opens packets := by
  constructor
  · intro counters counter
    exact (ReplayWindow.tracks_offer (ReplayWindow.tracks_run counters) counter).1
  · intro X s counter ciphertext h
    rw [Session.openPacket_unread h]
    exact ⟨rfl, fun _ => rfl⟩

def sternCrypto : Crypto :=
  { Session.plaintext.toCrypto with
    readTransport := fun _ _ ciphertext => if ciphertext.isEmpty then none else some ciphertext }

/-- Behind 5 and 70, the oldest counter that is still fresh and the one before it; and a packet
that does not open in front of one that does. -/
theorem accept_exact_edge :
    let window := (run ReplayWindow.offer (.new, []) [5, 70]).1
    (window.accept 7).2 = true ∧ (window.accept 6).2 = false ∧
    ∀ s : Session sternCrypto, (s.openPacket 71 []).1.opens [(71, [1])] = s.opens [(71, [1])] := by
  intro window
  have hhistory : (run ReplayWindow.offer (.new, []) [5, 70]).2 = [5, 70] := by decide
  refine ⟨(accept_exact.1 [5, 70] 7).mpr ?_, ?_, fun s => ?_⟩
  · rw [hhistory]
    refine ⟨by decide, fun highest hmem _ => ?_⟩
    rcases List.mem_pair.mp hmem with rfl | rfl
    · decide
    · decide
  · refine Bool.eq_false_iff.mpr fun haccepts => ?_
    have hfresh := (accept_exact.1 [5, 70] 6).mp haccepts
    rw [hhistory] at hfresh
    refine absurd (hfresh.2 70 (by decide) fun a ha => ?_) (by decide)
    rcases List.mem_pair.mp ha with rfl | rfl
    · decide
    · decide
  · exact (accept_exact.2 sternCrypto s 71 [] rfl).2 _

end JamStream.Protocol
