import JamStream.Cloud.Storage
import JamStream.Foundations.Runs

/-! In-flight markers: an upload keeps an empty file in a directory, named after its key,
from its open to its end. Several uploads share the directory. -/

namespace JamStream.Cloud
open Runs

/-- An upload whose sink is held, its marker where one could be written, and whether its
task still runs. -/
structure InFlight where
  key : String
  marker : Option String
  running : Bool
  named : ∀ name ∈ marker, name = sanitizeComponent key

def InFlight.start (key : String) (written : Bool) : InFlight where
  key
  marker := if written then some (sanitizeComponent key) else none
  running := true
  named := by
    intro name hname
    split_ifs at hname
    · exact (Option.some.inj hname).symm
    · exact absurd hname.symm (Option.some_ne_none name)

def InFlight.stop (u : InFlight) : InFlight := { u with running := false }

/-- The uploads whose sink is held, the keys of the dropped ones whose task still runs,
and the files in the directory. -/
structure Markers where
  uploads : List InFlight
  dropped : List String
  dir : Finset String

namespace Markers

/-- Whether the marker could be written comes with the open. A finish or an abort ends when
it returns, behind the task's last call to the store. A drop waits for nothing: the task
runs on until its source fails and the driver has aborted. -/
inductive Event
  | begin (key : String) (written : Bool)
  | stop (i : ℕ)
  | finish (i : ℕ)
  | abort (i : ℕ)
  | drop (i : ℕ)
  | expire (j : ℕ)

def Event.key? : Event → Option String
  | .begin key _ => some key
  | _ => none

def empty : Markers := { uploads := [], dropped := [], dir := ∅ }

def close (m : Markers) (i : ℕ) : Markers :=
  match m.uploads[i]? with
  | none => m
  | some u =>
    { m with uploads := m.uploads.eraseIdx i, dir := u.marker.elim m.dir m.dir.erase }

def step (m : Markers) : Event → Markers
  | .begin key written =>
    { m with
      uploads := m.uploads ++ [InFlight.start key written]
      dir := if written then insert (sanitizeComponent key) m.dir else m.dir }
  | .stop i => { m with uploads := m.uploads.modify i InFlight.stop }
  | .finish i | .abort i => m.close i
  | .drop i =>
    let left := (m.uploads[i]?.filter InFlight.running).map InFlight.key
    { m.close i with dropped := left.toList ++ m.dropped }
  | .expire j => { m with dropped := m.dropped.eraseIdx j }

def keys (m : Markers) : List String := m.uploads.map InFlight.key ++ m.dropped

def Marked (m : Markers) : Prop := ∀ key ∈ m.keys, sanitizeComponent key ∈ m.dir

instance (m : Markers) : Decidable m.Marked := inferInstanceAs (Decidable (∀ key ∈ _, _))

def others (m : Markers) (i : ℕ) : List String :=
  (m.uploads.eraseIdx i).map InFlight.key ++ m.dropped

def ClosesAlone (m : Markers) (i : ℕ) : Prop :=
  ∀ u ∈ m.uploads[i]?, u.marker.isSome →
    ∀ key ∈ m.others i, sanitizeComponent key ≠ sanitizeComponent u.key

/-- Markers can be written, none is removed that another upload goes by, and none of an
upload whose task runs on. -/
def Apart (m : Markers) : Event → Prop
  | .begin key written => written ∨ sanitizeComponent key ∈ m.dir
  | .finish i | .abort i => m.ClosesAlone i
  | .drop i =>
    m.ClosesAlone i ∧ ∀ u ∈ m.uploads[i]?, u.marker.isSome → u.running = false
  | .stop _ | .expire _ => True

variable {m : Markers}

theorem Marked.others (hm : m.Marked) (i : ℕ) :
    ∀ key ∈ m.others i, sanitizeComponent key ∈ m.dir := by
  intro key hkey
  refine hm key ?_
  rcases List.mem_append.mp hkey with h | h
  · obtain ⟨v, hv, rfl⟩ := List.mem_map.mp h
    exact List.mem_append_left _ (List.mem_map_of_mem (List.mem_of_mem_eraseIdx hv))
  · exact List.mem_append_right _ h

theorem Marked.upload (hm : m.Marked) {i : ℕ} {u : InFlight} (hu : m.uploads[i]? = some u) :
    sanitizeComponent u.key ∈ m.dir :=
  hm u.key (List.mem_append_left _ (List.mem_map_of_mem (List.mem_of_getElem? hu)))

theorem close_none {i : ℕ} (hu : m.uploads[i]? = none) : m.close i = m := by
  rw [close, hu]

theorem keys_close {i : ℕ} {u : InFlight} (hu : m.uploads[i]? = some u) :
    (m.close i).keys = m.others i := by
  rw [close, hu]
  rfl

theorem dir_close {i : ℕ} {u : InFlight} (hu : m.uploads[i]? = some u) :
    (m.close i).dir = u.marker.elim m.dir m.dir.erase := by
  rw [close, hu]

theorem marked_close (hm : m.Marked) (i : ℕ) : (m.close i).Marked ↔ m.ClosesAlone i := by
  cases hu : m.uploads[i]? with
  | none =>
    rw [close_none hu]
    exact iff_of_true hm fun u h => absurd (hu.symm.trans h) nofun
  | some u =>
    unfold Marked ClosesAlone
    rw [keys_close hu, dir_close hu, hu]
    simp only [Option.mem_some_iff, forall_eq']
    cases hmarker : u.marker with
    | none => exact iff_of_true (hm.others i) fun h => absurd h Bool.false_ne_true
    | some name =>
      have hname := u.named name hmarker
      constructor
      · intro h _ key hkey hsame
        have hkept := h key hkey
        rw [Option.elim_some, hname, hsame] at hkept
        exact Finset.notMem_erase _ _ hkept
      · intro h key hkey
        have hne := h rfl key hkey
        rw [← hname] at hne
        exact Finset.mem_erase.mpr ⟨hne, hm.others i key hkey⟩

theorem marked_begin (hm : m.Marked) (key : String) (written : Bool) :
    (m.step (.begin key written)).Marked ↔ m.Apart (.begin key written) := by
  have hkeys : ∀ k, k ∈ (m.step (.begin key written)).keys ↔ k ∈ m.keys ∨ k = key := by
    intro k
    simp only [step, keys, List.map_append, List.map_cons, List.map_nil, List.mem_append,
      List.mem_singleton, InFlight.start]
    tauto
  unfold Marked
  simp only [hkeys, or_imp, forall_and, forall_eq]
  cases written with
  | false =>
    constructor
    · exact fun h => .inr h.2
    · exact fun h => ⟨hm, h.resolve_left Bool.false_ne_true⟩
  | true =>
    refine iff_of_true ⟨fun k hk => ?_, ?_⟩ (.inl rfl)
    · exact Finset.mem_insert_of_mem (hm k hk)
    · exact Finset.mem_insert_self _ _

theorem not_marked_drop {i : ℕ} {u : InFlight} (hu : m.uploads[i]? = some u)
    (hmarker : u.marker.isSome) (hrunning : u.running) : ¬(m.step (.drop i)).Marked := by
  intro hmarked
  obtain ⟨name, hname⟩ := Option.isSome_iff_exists.mp hmarker
  have hdir : (m.step (.drop i)).dir = m.dir.erase name := by
    show (m.close i).dir = _
    rw [dir_close hu, hname, Option.elim_some]
  have hin : u.key ∈ (m.step (.drop i)).keys := by
    refine List.mem_append_right _ (List.mem_append_left _ ?_)
    rw [hu, Option.filter_some, if_pos hrunning]
    exact List.mem_singleton.mpr rfl
  have hkept := hmarked u.key hin
  rw [hdir, u.named name hname] at hkept
  exact Finset.notMem_erase _ _ hkept

theorem marked_drop (hm : m.Marked) (i : ℕ) :
    (m.step (.drop i)).Marked ↔ m.Apart (.drop i) := by
  have hsub : (m.step (.drop i)).Marked → (m.close i).Marked := by
    intro h key hkey
    refine h key ?_
    rcases List.mem_append.mp hkey with hin | hin
    · exact List.mem_append_left _ hin
    · refine List.mem_append_right _ (List.mem_append_right _ ?_)
      rcases hu : m.uploads[i]? with _ | u
      · rwa [close_none hu] at hin
      · rwa [close, hu] at hin
  constructor
  · intro h
    refine ⟨(marked_close hm i).mp (hsub h), fun u hu hmarker => ?_⟩
    exact Bool.eq_false_iff.mpr fun hrunning => not_marked_drop hu hmarker hrunning h
  · rintro ⟨halone, hstopped⟩ key hkey
    have hclosed := (marked_close hm i).mpr halone
    rcases List.mem_append.mp hkey with hin | hin
    · exact hclosed key (List.mem_append_left _ hin)
    rcases hu : m.uploads[i]? with _ | u
    · have hkept : key ∈ m.dropped := by simpa [step, hu] using hin
      show _ ∈ (m.close i).dir
      rw [close_none hu]
      exact hm key (List.mem_append_right _ hkept)
    · rcases List.mem_append.mp hin with hleft | hkept
      · -- The task of a dropped sink runs on: it had no marker, and goes by another's.
        rw [hu, Option.filter_some] at hleft
        cases hmarker : u.marker with
        | none =>
          have hkey : key = u.key := by
            split_ifs at hleft
            · simpa using hleft
            · simp at hleft
          show _ ∈ (m.close i).dir
          rw [dir_close hu, hmarker, Option.elim_none, hkey]
          exact hm.upload hu
        | some name =>
          rw [if_neg (by simp [hstopped u hu (by simp [hmarker])])] at hleft
          simp at hleft
      · refine hclosed key ?_
        rw [keys_close hu]
        exact List.mem_append_right _ hkept

theorem marked_stop (hm : m.Marked) (i : ℕ) : (m.step (.stop i)).Marked := by
  have hkeys : (m.step (.stop i)).keys = m.keys := by
    have hmap : (m.uploads.modify i InFlight.stop).map InFlight.key =
        m.uploads.map InFlight.key := by
      refine List.ext_getElem? fun j => ?_
      rw [List.getElem?_map, List.getElem?_modify, List.getElem?_map]
      cases m.uploads[j]? with
      | none => rfl
      | some u =>
        show some (InFlight.key (if i = j then u.stop else u)) = some u.key
        split_ifs <;> rfl
    exact congrArg (· ++ m.dropped) hmap
  intro key hkey
  rw [hkeys] at hkey
  exact hm key hkey

theorem marked_expire (hm : m.Marked) (j : ℕ) : (m.step (.expire j)).Marked := by
  intro key hkey
  refine hm key ?_
  rcases List.mem_append.mp hkey with h | h
  · exact List.mem_append_left _ h
  · exact List.mem_append_right _ (List.mem_of_mem_eraseIdx h)

theorem marked_step (hm : m.Marked) (e : Event) : (m.step e).Marked ↔ m.Apart e := by
  cases e with
  | begin key written => exact marked_begin hm key written
  | stop i => exact iff_of_true (marked_stop hm i) trivial
  | finish i => exact marked_close hm i
  | abort i => exact marked_close hm i
  | drop i => exact marked_drop hm i
  | expire j => exact iff_of_true (marked_expire hm j) trivial

/-- Every upload in flight is marked at every moment exactly when markers can be written,
each sink with a marker ends alone under the name of its own, and none is dropped while its
task runs. -/
theorem markers_iff (events : List Event) :
    Throughout step Marked empty events ↔ Meets step Apart empty events := by
  refine throughout_iff_meets (I := Marked) (fun _ hm => hm) (fun m e hm happart => ?_)
    (fun m e hm hmarked => ?_) fun u hu => absurd hu List.not_mem_nil
  · exact (marked_step hm e).mpr happart
  · exact (marked_step hm e).mp hmarked

def accents : List Event :=
  [.begin "jamstream/recordings/s1/jamstream-2026-07-25-1030-André.flac" true,
    .begin "jamstream/recordings/s1/jamstream-2026-07-25-1030-Andrè.flac" true, .finish 0]

theorem not_marked_of_shared {k k' : String} (h : sanitizeComponent k = sanitizeComponent k') :
    ¬(run step empty [.begin k true, .begin k' true, .finish 0]).Marked := by
  intro hmarked
  have hdir : (run step empty [.begin k true, .begin k' true, .finish 0]).dir =
      Finset.erase (insert (sanitizeComponent k') (insert (sanitizeComponent k) ∅))
        (sanitizeComponent k) := rfl
  have hin := hmarked k' List.mem_cons_self
  rw [hdir] at hin
  exact Finset.ne_of_mem_erase hin h.symm

/-- The first to finish takes the marker of both. -/
theorem markers_accents :
    ¬∀ events : List Event, (events.filterMap Event.key?).Nodup →
      (∀ e ∈ events, ∀ key, e ≠ .begin key false) → Throughout step Marked empty events := by
  intro h
  have hgone : ¬(run step empty accents).Marked := not_marked_of_shared (by decide +kernel)
  refine hgone (h accents (by decide +kernel) (fun e he key heq => ?_)).last
  subst heq
  revert he
  simp [accents]

end Markers
end JamStream.Cloud
