import JamStream.Foundations.Runs

/-! The lock on the registry is a file: whoever creates it holds the lock, and removes it when
done. A file that a process died with is removed once it is old, and a wait that runs out goes
on without the lock. -/

namespace JamStream.Cloud
open Runs
variable {R : Type}

/-- In milliseconds. -/
def lockWait : ℕ := 2000

def lockStale : ℕ := 30000

/-- No two files that are created have the same `serial`; the owner is none once its process is
dead. -/
structure LockFile where
  serial : ℕ
  modified : ℕ
  owner : Option ℕ
deriving DecidableEq

/-- A file that is not there counts as stale. -/
def lockIsStale (now : ℕ) : Option LockFile → Bool
  | some f => lockStale < now - f.modified
  | none => true

/-- What a process goes through its cycle with. Whether the file could not be created for another
reason than that it exists, the end of the wait, and when the process went on are not part of
the lock: they say why it is not held. -/
structure FileLock where
  held : Bool
  refused : Bool
  deadline : ℕ
  since : ℕ
deriving DecidableEq

/-- Where a process is in its cycle; one that found the lock stale is about to remove the file,
if any, that it saw. -/
inductive LockPhase (R : Type)
  | idle
  | opening (deadline : ℕ)
  | looking (deadline : ℕ)
  | breaking (deadline : ℕ) (seen : Option ℕ)
  | waiting (deadline : ℕ)
  | entered (lock : FileLock)
  | changing (lock : FileLock) (entries : R)
  | leaving (lock : FileLock)
deriving DecidableEq

def LockPhase.lock : LockPhase R → Option FileLock
  | .entered lock | .changing lock _ | .leaving lock => some lock
  | .idle | .opening _ | .looking _ | .breaking .. | .waiting _ => none

/-- The processes at the registry, with what was written to it, who removed whose lock, and
whether any went on without the lock. -/
structure Lockers (R : Type) where
  now : ℕ
  file : Option LockFile
  serial : ℕ
  phase : ℕ → LockPhase R
  registry : R
  written : List (R → R)
  removed : List (ℕ × Option ℕ)
  unlocked : Bool

inductive LockMove (R : Type)
  | start (p : ℕ)
  | create (p : ℕ) (refused : Bool)
  | stat (p : ℕ)
  | remove (p : ℕ)
  | wait (p : ℕ)
  | read (p : ℕ)
  | write (p : ℕ) (f : R → R)
  | fail (p : ℕ)
  | drop (p : ℕ)
  | tick (ms : ℕ)

namespace Lockers

/-- The lock file is not there, or was left behind. -/
def init (registry : R) (now : ℕ) (left : Option ℕ) : Lockers R :=
  { now
    file := left.map fun modified => { serial := 0, modified, owner := none }
    serial := 1
    phase := fun _ => .idle
    registry
    written := []
    removed := []
    unlocked := false }

def goto (s : Lockers R) (p : ℕ) (phase : LockPhase R) : Lockers R :=
  { s with phase := Function.update s.phase p phase }

def goOn (s : Lockers R) (p : ℕ) (refused : Bool) (deadline : ℕ) : Lockers R :=
  { s.goto p (.entered { held := false, refused, deadline, since := s.now }) with unlocked := true }

def removeFile (s : Lockers R) (p : ℕ) : Lockers R :=
  { s with
    file := none
    removed := s.removed ++ (s.file.map fun f => (p, f.owner)).toList }

def start (s : Lockers R) (p : ℕ) : Lockers R :=
  match s.phase p with
  | .idle => s.goto p (.opening (s.now + lockWait))
  | _ => s

def create (s : Lockers R) (p : ℕ) (refused : Bool) : Lockers R :=
  match s.phase p with
  | .opening deadline =>
    if refused then s.goOn p true deadline
    else if s.file.isSome then s.goto p (.looking deadline)
    else { s.goto p (.entered { held := true, refused, deadline, since := s.now }) with
      file := some { serial := s.serial, modified := s.now, owner := some p }
      serial := s.serial + 1 }
  | _ => s

def stat (s : Lockers R) (p : ℕ) : Lockers R :=
  match s.phase p with
  | .looking deadline =>
    if lockIsStale s.now s.file then s.goto p (.breaking deadline (s.file.map (·.serial)))
    else s.goto p (.waiting deadline)
  | _ => s

def remove (s : Lockers R) (p : ℕ) : Lockers R :=
  match s.phase p with
  | .breaking deadline _ => (s.removeFile p).goto p (.opening deadline)
  | _ => s

def wait (s : Lockers R) (p : ℕ) : Lockers R :=
  match s.phase p with
  | .waiting deadline =>
    if deadline ≤ s.now then s.goOn p false deadline else s.goto p (.opening deadline)
  | _ => s

def read (s : Lockers R) (p : ℕ) : Lockers R :=
  match s.phase p with
  | .entered lock => s.goto p (.changing lock s.registry)
  | _ => s

def write (s : Lockers R) (p : ℕ) (f : R → R) : Lockers R :=
  match s.phase p with
  | .changing lock entries =>
    { s.goto p (.leaving lock) with registry := f entries, written := s.written ++ [f] }
  | _ => s

/-- The registry cannot be read, or not be written. -/
def fail (s : Lockers R) (p : ℕ) : Lockers R :=
  match s.phase p with
  | .entered lock => s.goto p (.leaving lock)
  | .changing lock _ => s.goto p (.leaving lock)
  | _ => s

def drop (s : Lockers R) (p : ℕ) : Lockers R :=
  match s.phase p with
  | .leaving lock => (if lock.held then s.removeFile p else s).goto p .idle
  | _ => s

def step (s : Lockers R) : LockMove R → Lockers R
  | .start p => s.start p
  | .create p refused => s.create p refused
  | .stat p => s.stat p
  | .remove p => s.remove p
  | .wait p => s.wait p
  | .read p => s.read p
  | .write p f => s.write p f
  | .fail p => s.fail p
  | .drop p => s.drop p
  | .tick ms => { s with now := s.now + ms }

def Within (s : Lockers R) (p : ℕ) : Prop := (s.phase p).lock.isSome = true

def Holds (s : Lockers R) (p : ℕ) : Prop := ∃ l ∈ (s.phase p).lock, l.held = true

/-- The registry is what the writes so far make of it, one after the other. -/
def Complete (registry : R) (s : Lockers R) : Prop :=
  s.registry = s.written.foldl (fun entries f => f entries) registry

def Respected (s : Lockers R) : Prop := ∀ r ∈ s.removed, ∀ q ∈ r.2, q = r.1

structure Excludes (registry : R) (s : Lockers R) : Prop where
  alone : ∀ p q, s.Within p → s.Within q → p = q
  respected : s.Respected
  complete : s.Complete registry

/-- The lock excludes all that hold it; the others did not get it in time, or could not
create its file, and until there is one no update is lost. -/
structure ExcludesHolders (registry : R) (s : Lockers R) : Prop where
  alone : ∀ p q, s.Holds p → s.Holds q → p = q
  others : ∀ p, ∀ l ∈ (s.phase p).lock, l.held = false →
    l.refused = true ∨ l.deadline ≤ l.since
  respected : s.Respected
  locked : s.unlocked = false → (∀ p q, s.Within p → s.Within q → p = q) ∧ s.Complete registry

/-- Each holds the lock for less than the wait and the stale age. -/
def Brief (s : Lockers R) : LockMove R → Prop
  | .tick ms => ∀ p, ∀ l ∈ (s.phase p).lock, l.held = true →
    s.now + ms - l.since < min lockWait lockStale
  | _ => True

/-- A file that is removed as stale is the one that was looked at. -/
def Unchanged (s : Lockers R) : LockMove R → Prop
  | .remove p => ∀ deadline seen, s.phase p = .breaking deadline seen →
    s.file.map (·.serial) = seen
  | _ => True

inductive Does (s : Lockers R) : LockMove R → Lockers R → Prop
  | start (p : ℕ) (h : s.phase p = .idle) :
      Does s (.start p) (s.goto p (.opening (s.now + lockWait)))
  | refused (p deadline : ℕ) (h : s.phase p = .opening deadline) :
      Does s (.create p true) (s.goOn p true deadline)
  | exists (p deadline : ℕ) (h : s.phase p = .opening deadline) :
      Does s (.create p false) (s.goto p (.looking deadline))
  | create (p deadline : ℕ) (h : s.phase p = .opening deadline) (hfile : s.file = none) :
      Does s (.create p false)
        { s.goto p (.entered { held := true, refused := false, deadline, since := s.now }) with
          file := some { serial := s.serial, modified := s.now, owner := some p }
          serial := s.serial + 1 }
  | stale (p deadline : ℕ) (h : s.phase p = .looking deadline)
      (hstale : lockIsStale s.now s.file = true) :
      Does s (.stat p) (s.goto p (.breaking deadline (s.file.map (·.serial))))
  | fresh (p deadline : ℕ) (h : s.phase p = .looking deadline) :
      Does s (.stat p) (s.goto p (.waiting deadline))
  | remove (p deadline : ℕ) (seen : Option ℕ) (h : s.phase p = .breaking deadline seen) :
      Does s (.remove p) ((s.removeFile p).goto p (.opening deadline))
  | runOut (p deadline : ℕ) (h : s.phase p = .waiting deadline) (hlate : deadline ≤ s.now) :
      Does s (.wait p) (s.goOn p false deadline)
  | again (p deadline : ℕ) (h : s.phase p = .waiting deadline) :
      Does s (.wait p) (s.goto p (.opening deadline))
  | read (p : ℕ) (lock : FileLock) (h : s.phase p = .entered lock) :
      Does s (.read p) (s.goto p (.changing lock s.registry))
  | write (p : ℕ) (f : R → R) (lock : FileLock) (entries : R)
      (h : s.phase p = .changing lock entries) :
      Does s (.write p f) { s.goto p (.leaving lock) with
        registry := f entries, written := s.written ++ [f] }
  | fail (p : ℕ) (lock : FileLock) (h : (s.phase p).lock = some lock) :
      Does s (.fail p) (s.goto p (.leaving lock))
  | dropHeld (p : ℕ) (lock : FileLock) (h : s.phase p = .leaving lock) (hheld : lock.held = true) :
      Does s (.drop p) ((s.removeFile p).goto p .idle)
  | dropUnheld (p : ℕ) (lock : FileLock) (h : s.phase p = .leaving lock)
      (hheld : lock.held = false) : Does s (.drop p) (s.goto p .idle)
  | tick (ms : ℕ) : Does s (.tick ms) { s with now := s.now + ms }

theorem step_cases (s : Lockers R) (m : LockMove R) : s.step m = s ∨ s.Does m (s.step m) := by
  cases m with
  | start p =>
    rcases h : s.phase p <;> simp only [step, start, h, true_or]
    exact .inr (.start p h)
  | create p refused =>
    rcases h : s.phase p with _ | deadline <;> simp only [step, create, h, true_or]
    right
    rcases refused with _ | _
    · rw [if_neg Bool.false_ne_true]
      split_ifs with hfile
      · exact .exists p deadline h
      · exact .create p deadline h (Option.not_isSome_iff_eq_none.mp hfile)
    · exact .refused p deadline h
  | stat p =>
    rcases h : s.phase p with _ | _ | deadline <;> simp only [step, stat, h, true_or]
    right
    split_ifs with hstale
    · exact .stale p deadline h hstale
    · exact .fresh p deadline h
  | remove p =>
    rcases h : s.phase p with _ | _ | _ | ⟨deadline, seen⟩ <;> simp only [step, remove, h, true_or]
    exact .inr (.remove p deadline seen h)
  | wait p =>
    rcases h : s.phase p with _ | _ | _ | _ | deadline <;> simp only [step, wait, h, true_or]
    right
    split_ifs with hlate
    · exact .runOut p deadline h hlate
    · exact .again p deadline h
  | read p =>
    rcases h : s.phase p with _ | _ | _ | _ | _ | lock <;> simp only [step, read, h, true_or]
    exact .inr (.read p lock h)
  | write p f =>
    rcases h : s.phase p with _ | _ | _ | _ | _ | _ | ⟨lock, entries⟩ <;>
      simp only [step, write, h, true_or]
    exact .inr (.write p f lock entries h)
  | fail p =>
    rcases h : s.phase p with _ | _ | _ | _ | _ | lock | ⟨lock, _⟩ <;>
      simp only [step, fail, h, true_or]
    · exact .inr (.fail p lock (by rw [h]; rfl))
    · exact .inr (.fail p lock (by rw [h]; rfl))
  | drop p =>
    rcases h : s.phase p with _ | _ | _ | _ | _ | _ | _ | lock <;> simp only [step, drop, h, true_or]
    right
    split_ifs with hheld
    · exact .dropHeld p lock h hheld
    · exact .dropUnheld p lock h (Bool.eq_false_iff.mpr hheld)
  | tick ms => exact .inr (.tick ms)

def locks (s : Lockers R) (p : ℕ) : Option FileLock := (s.phase p).lock

theorem locks_goto (s : Lockers R) (p : ℕ) (phase : LockPhase R) :
    (s.goto p phase).locks = Function.update s.locks p phase.lock := by
  funext q
  show (Function.update s.phase p phase q).lock = _
  by_cases hq : q = p
  · subst hq
    rw [Function.update_self, Function.update_self]
  · rw [Function.update_of_ne hq, Function.update_of_ne hq]
    rfl

theorem locks_goto_same {s : Lockers R} {p : ℕ} {phase : LockPhase R} (h : phase.lock = s.locks p) :
    (s.goto p phase).locks = s.locks := by
  rw [locks_goto, h, Function.update_eq_self]

/-- The file is that of whoever holds the lock, and not old; whoever goes on without the lock
has a reason. -/
structure Owned (locks : ℕ → Option FileLock) (file : Option LockFile) (now : ℕ) : Prop where
  holder : ∀ p, ∀ l ∈ locks p, l.held = true →
    ∃ f ∈ file, f.owner = some p ∧ f.modified = l.since
  owner : ∀ f ∈ file, ∀ p ∈ f.owner, ∃ l ∈ locks p, l.held = true
  brief : ∀ p, ∀ l ∈ locks p, l.held = true → now - l.since < lockStale
  others : ∀ p, ∀ l ∈ locks p, l.held = false → l.refused = true ∨ l.deadline ≤ l.since

namespace Owned
variable {locks : ℕ → Option FileLock} {file : Option LockFile} {now p : ℕ}

theorem unique (h : Owned locks file now) {q : ℕ} {l k : FileLock} (hl : l ∈ locks p)
    (hk : k ∈ locks q) (hlheld : l.held = true) (hkheld : k.held = true) : p = q := by
  obtain ⟨f, hf, hfp, _⟩ := h.holder p l hl hlheld
  obtain ⟨g, hg, hgq, _⟩ := h.holder q k hk hkheld
  obtain rfl := Option.mem_unique hf hg
  exact Option.some.inj (hfp.symm.trans hgq)

theorem unowned (h : Owned locks file now) {f : LockFile} (hf : f ∈ file)
    (hold : lockStale < now - f.modified) : f.owner = none := by
  rcases howner : f.owner with _ | q
  · rfl
  · obtain ⟨l, hl, hheld⟩ := h.owner f hf q howner
    obtain ⟨g, hg, _, hsince⟩ := h.holder q l hl hheld
    obtain rfl := Option.mem_unique hf hg
    have hbrief := h.brief q l hl hheld
    rw [hsince] at hold
    exact absurd hbrief (Nat.not_lt.mpr hold.le)

theorem goOn (h : Owned locks file now) (hp : locks p = none) {l : FileLock} (hheld : l.held = false)
    (hreason : l.refused = true ∨ l.deadline ≤ l.since) :
    Owned (Function.update locks p (some l)) file now := by
  have hnot : ∀ k ∈ some l, k.held ≠ true := by
    rintro k hk hkheld
    obtain rfl := Option.some.inj hk
    exact Bool.false_ne_true (hheld.symm.trans hkheld)
  constructor
  · exact (Function.forall_update_iff locks fun q v => ∀ k ∈ v, k.held = true →
      ∃ f ∈ file, f.owner = some q ∧ f.modified = k.since).mpr
        ⟨fun k hk hkheld => absurd hkheld (hnot k hk), fun q _ => h.holder q⟩
  · intro f hf q hq
    obtain ⟨k, hk, hkheld⟩ := h.owner f hf q hq
    have hne : q ≠ p := by
      rintro rfl
      rw [hp] at hk
      exact nomatch hk
    refine ⟨k, ?_, hkheld⟩
    rw [Function.update_of_ne hne]
    exact hk
  · exact (Function.forall_update_iff locks fun _ v => ∀ k ∈ v, k.held = true →
      now - k.since < lockStale).mpr
        ⟨fun k hk hkheld => absurd hkheld (hnot k hk), fun q _ => h.brief q⟩
  · refine (Function.forall_update_iff locks fun _ v => ∀ k ∈ v, k.held = false →
      k.refused = true ∨ k.deadline ≤ k.since).mpr ⟨?_, fun q _ => h.others q⟩
    intro k hk _
    obtain rfl := Option.some.inj hk
    exact hreason

theorem create (h : Owned locks none now) {l : FileLock} {f : LockFile}
    (hheld : l.held = true) (hsince : l.since = now) (howner : f.owner = some p)
    (hmodified : f.modified = now) : Owned (Function.update locks p (some l)) (some f) now := by
  constructor
  · refine (Function.forall_update_iff locks fun q v => ∀ k ∈ v, k.held = true →
      ∃ g ∈ some f, g.owner = some q ∧ g.modified = k.since).mpr ⟨?_, ?_⟩
    · intro k hk _
      obtain rfl := Option.some.inj hk
      exact ⟨f, rfl, howner, hmodified.trans hsince.symm⟩
    · intro q _ k hk hkheld
      obtain ⟨g, hg, _⟩ := h.holder q k hk hkheld
      exact nomatch hg
  · intro g hg q hq
    obtain rfl := Option.some.inj hg
    obtain rfl := Option.some.inj (howner.symm.trans hq)
    exact ⟨l, Function.update_self _ _ _, hheld⟩
  · refine (Function.forall_update_iff locks fun _ v => ∀ k ∈ v, k.held = true →
      now - k.since < lockStale).mpr ⟨?_, fun q _ => h.brief q⟩
    intro k hk _
    obtain rfl := Option.some.inj hk
    rw [hsince, Nat.sub_self]
    decide
  · refine (Function.forall_update_iff locks fun _ v => ∀ k ∈ v, k.held = false →
      k.refused = true ∨ k.deadline ≤ k.since).mpr ⟨?_, fun q _ => h.others q⟩
    intro k hk hkheld
    obtain rfl := Option.some.inj hk
    exact absurd (hkheld.symm.trans hheld) Bool.false_ne_true

theorem remove (h : Owned locks file now) (hfile : ∀ f ∈ file, f.owner = none) :
    Owned locks none now where
  holder q k hk hkheld := by
    obtain ⟨f, hf, howner, _⟩ := h.holder q k hk hkheld
    rw [hfile f hf] at howner
    exact nomatch howner
  owner _ hf := nomatch hf
  brief := h.brief
  others := h.others

theorem release (h : Owned locks file now) {l : FileLock} (hl : l ∈ locks p)
    (hheld : l.held = true) : Owned (Function.update locks p none) none now := by
  have hnone : ∀ {C : FileLock → Prop}, ∀ k ∈ (none : Option FileLock), C k := fun _ hk => nomatch hk
  constructor
  · refine (Function.forall_update_iff locks fun q v => ∀ k ∈ v, k.held = true →
      ∃ f ∈ (none : Option LockFile), f.owner = some q ∧ f.modified = k.since).mpr ⟨hnone, ?_⟩
    intro q hq k hk hkheld
    exact absurd (h.unique hk hl hkheld hheld) hq
  · exact fun _ hf => nomatch hf
  · exact (Function.forall_update_iff locks fun _ v => ∀ k ∈ v, k.held = true →
      now - k.since < lockStale).mpr ⟨hnone, fun q _ => h.brief q⟩
  · exact (Function.forall_update_iff locks fun _ v => ∀ k ∈ v, k.held = false →
      k.refused = true ∨ k.deadline ≤ k.since).mpr ⟨hnone, fun q _ => h.others q⟩

theorem leave (h : Owned locks file now) {l : FileLock} (hl : l ∈ locks p)
    (hheld : l.held = false) : Owned (Function.update locks p none) file now := by
  have hnone : ∀ {C : FileLock → Prop}, ∀ k ∈ (none : Option FileLock), C k := fun _ hk => nomatch hk
  constructor
  · exact (Function.forall_update_iff locks fun q v => ∀ k ∈ v, k.held = true →
      ∃ f ∈ file, f.owner = some q ∧ f.modified = k.since).mpr ⟨hnone, fun q _ => h.holder q⟩
  · intro f hf q hq
    obtain ⟨k, hk, hkheld⟩ := h.owner f hf q hq
    have hne : q ≠ p := by
      rintro rfl
      obtain rfl := Option.mem_unique hl hk
      exact absurd (hheld.symm.trans hkheld) Bool.false_ne_true
    refine ⟨k, ?_, hkheld⟩
    rw [Function.update_of_ne hne]
    exact hk
  · exact (Function.forall_update_iff locks fun _ v => ∀ k ∈ v, k.held = true →
      now - k.since < lockStale).mpr ⟨hnone, fun q _ => h.brief q⟩
  · exact (Function.forall_update_iff locks fun _ v => ∀ k ∈ v, k.held = false →
      k.refused = true ∨ k.deadline ≤ k.since).mpr ⟨hnone, fun q _ => h.others q⟩

end Owned

structure Judged (phase : ℕ → LockPhase R) (file : Option LockFile) (serial : ℕ) : Prop where
  fresh : ∀ f ∈ file, f.serial < serial
  seen : ∀ p deadline n, phase p = .breaking deadline (some n) →
    n < serial ∧ ∀ f ∈ file, f.serial = n → f.owner = none

namespace Judged
variable {phase : ℕ → LockPhase R} {file : Option LockFile} {serial p : ℕ}

theorem goto (h : Judged phase file serial) {next : LockPhase R}
    (hnext : ∀ deadline n, next = .breaking deadline (some n) →
      n < serial ∧ ∀ f ∈ file, f.serial = n → f.owner = none) :
    Judged (Function.update phase p next) file serial where
  fresh := h.fresh
  seen := (Function.forall_update_iff phase fun _ x => ∀ deadline n,
    x = .breaking deadline (some n) →
      n < serial ∧ ∀ f ∈ file, f.serial = n → f.owner = none).mpr ⟨hnext, fun q _ => h.seen q⟩

theorem remove (h : Judged phase file serial) : Judged phase none serial where
  fresh _ hf := nomatch hf
  seen q deadline n hq := ⟨(h.seen q deadline n hq).1, fun _ hf => nomatch hf⟩

theorem create (h : Judged phase file serial) {f : LockFile} (hf : f.serial = serial) :
    Judged phase (some f) (serial + 1) where
  fresh g hg := by
    obtain rfl := Option.some.inj hg
    rw [hf]
    exact Nat.lt_succ_self serial
  seen q deadline n hq := by
    have hn := (h.seen q deadline n hq).1
    refine ⟨hn.trans (Nat.lt_succ_self serial), ?_⟩
    intro g hg hsame
    obtain rfl := Option.some.inj hg
    exact absurd (hsame.symm.trans hf) hn.ne

end Judged

/-- As long as all have the lock, what is about to be changed is the registry as it is. -/
structure Serial (registry : R) (s : Lockers R) : Prop where
  held : ∀ p, ∀ l ∈ s.locks p, l.held = true
  current : ∀ p lock entries, s.phase p = .changing lock entries → entries = s.registry
  complete : s.Complete registry

structure Guarded (registry : R) (s : Lockers R) : Prop where
  owned : Owned s.locks s.file s.now
  judged : Judged s.phase s.file s.serial
  respected : s.Respected
  serial : s.unlocked = false → s.Serial registry

section
variable {registry : R} {s t : Lockers R} {m : LockMove R}

theorem Guarded.excludesHolders (h : s.Guarded registry) : s.ExcludesHolders registry where
  alone p q := by
    rintro ⟨l, hl, hlheld⟩ ⟨k, hk, hkheld⟩
    exact h.owned.unique hl hk hlheld hkheld
  others := h.owned.others
  respected := h.respected
  locked hunlocked := by
    have hserial := h.serial hunlocked
    refine ⟨?_, hserial.complete⟩
    intro p q hp hq
    obtain ⟨l, hl⟩ := Option.isSome_iff_exists.mp hp
    obtain ⟨k, hk⟩ := Option.isSome_iff_exists.mp hq
    exact h.owned.unique hl hk (hserial.held p l hl) (hserial.held q k hk)

theorem Guarded.unowned (h : s.Guarded registry) {p deadline : ℕ} {seen : Option ℕ}
    (hp : s.phase p = .breaking deadline seen) (hsame : s.file.map (·.serial) = seen) :
    ∀ f ∈ s.file, f.owner = none := by
  intro f hf
  rw [Option.mem_def] at hf
  rw [hf] at hsame
  subst hsame
  exact (h.judged.seen p deadline f.serial hp).2 f hf rfl

theorem owned_does (h : s.Guarded registry) (hbrief : s.Brief m) (hsame : s.Unchanged m)
    (hm : s.Does m t) : Owned t.locks t.file t.now := by
  have howned := h.owned
  cases hm with
  | start p hp | «exists» p deadline hp | stale p deadline hp hstale | fresh p deadline hp
  | again p deadline hp | read p lock hp =>
    rw [locks_goto_same (by rw [locks, hp]; rfl)]
    exact howned
  | write p f lock entries hp =>
    show Owned (s.goto p (.leaving lock)).locks s.file s.now
    rw [locks_goto_same (by rw [locks, hp]; rfl)]
    exact howned
  | fail p lock hp =>
    have hlocks : (s.goto p (.leaving lock)).locks = s.locks := locks_goto_same hp.symm
    rw [hlocks]
    exact howned
  | refused p deadline hp =>
    show Owned (s.goto p _).locks s.file s.now
    rw [locks_goto]
    exact howned.goOn (by rw [locks, hp]; rfl) rfl (.inl rfl)
  | runOut p deadline hp hlate =>
    show Owned (s.goto p _).locks s.file s.now
    rw [locks_goto]
    exact howned.goOn (by rw [locks, hp]; rfl) rfl (.inr hlate)
  | create p deadline hp hfile =>
    rw [hfile] at howned
    show Owned (s.goto p _).locks (some _) s.now
    rw [locks_goto]
    exact howned.create rfl rfl rfl rfl
  | remove p deadline seen hp =>
    have hremoved := howned.remove (h.unowned hp (hsame deadline seen hp))
    have hlocks : (((s.removeFile p).goto p (.opening deadline)) : Lockers R).locks = s.locks :=
      locks_goto_same (s := s.removeFile p) (by rw [locks, removeFile, hp]; rfl)
    rw [hlocks]
    exact hremoved
  | dropHeld p lock hp hheld =>
    rw [locks_goto]
    exact howned.release (by rw [locks, hp]; rfl) hheld
  | dropUnheld p lock hp hheld =>
    rw [locks_goto]
    exact howned.leave (by rw [locks, hp]; rfl) hheld
  | tick ms =>
    refine ⟨howned.holder, howned.owner, ?_, howned.others⟩
    intro p l hl hheld
    exact (hbrief p l hl hheld).trans_le (min_le_right _ _)

theorem judged_does (h : s.Guarded registry) (hm : s.Does m t) :
    Judged t.phase t.file t.serial := by
  have hjudged := h.judged
  cases hm with
  | start p hp | «exists» p deadline hp | fresh p deadline hp | again p deadline hp
  | read p lock hp | write p f lock entries hp | fail p lock hp | refused p deadline hp
  | runOut p deadline hp hlate | dropUnheld p lock hp hheld =>
    exact hjudged.goto fun _ _ h => nomatch h
  | stale p deadline hp hstale =>
    refine hjudged.goto ?_
    intro deadline' n hn
    obtain ⟨_, hseen⟩ := LockPhase.breaking.inj hn
    obtain ⟨f, hf, rfl⟩ := Option.map_eq_some_iff.mp hseen
    refine ⟨hjudged.fresh f hf, ?_⟩
    intro g hg _
    obtain rfl := Option.mem_unique hf hg
    rw [hf] at hstale
    exact h.owned.unowned hf (of_decide_eq_true hstale)
  | create p deadline hp hfile => exact (hjudged.create rfl).goto fun _ _ h => nomatch h
  | remove p deadline seen hp => exact hjudged.remove.goto fun _ _ h => nomatch h
  | dropHeld p lock hp hheld => exact hjudged.remove.goto fun _ _ h => nomatch h
  | tick ms => exact hjudged

theorem respected_removeFile (h : s.Respected) {p : ℕ} (hfile : ∀ f ∈ s.file, ∀ q ∈ f.owner, q = p) :
    (s.removeFile p).Respected := by
  intro r hr
  rcases List.mem_append.mp hr with hold | hnew
  · exact h r hold
  · obtain ⟨f, hf, rfl⟩ := Option.map_eq_some_iff.mp (Option.mem_toList.mp hnew)
    exact hfile f hf

theorem respected_does (h : s.Guarded registry) (hsame : s.Unchanged m) (hm : s.Does m t) :
    t.Respected := by
  cases hm with
  | start p hp | «exists» p deadline hp | stale p deadline hp hstale | fresh p deadline hp
  | again p deadline hp | read p lock hp | write p f lock entries hp | fail p lock hp
  | refused p deadline hp | runOut p deadline hp hlate | dropUnheld p lock hp hheld
  | create p deadline hp hfile | tick ms => exact h.respected
  | remove p deadline seen hp =>
    apply respected_removeFile h.respected
    intro f hf q hq
    rw [h.unowned hp (hsame deadline seen hp) f hf] at hq
    exact nomatch hq
  | dropHeld p lock hp hheld =>
    apply respected_removeFile h.respected
    intro f hf q hq
    obtain ⟨k, hk, hkheld⟩ := h.owned.owner f hf q hq
    exact h.owned.unique hk (by rw [locks, hp]; rfl) hkheld hheld

theorem Serial.goto (h : s.Serial registry) {p : ℕ} {next : LockPhase R}
    (hlock : ∀ l ∈ next.lock, l.held = true)
    (hnext : ∀ lock entries, next = .changing lock entries → entries = s.registry) :
    (s.goto p next).Serial registry where
  held := by
    rw [locks_goto]
    exact (Function.forall_update_iff s.locks fun _ v => ∀ l ∈ v, l.held = true).mpr
      ⟨hlock, fun q _ => h.held q⟩
  current := (Function.forall_update_iff s.phase fun _ x => ∀ lock entries,
    x = .changing lock entries → entries = s.registry).mpr ⟨hnext, fun q _ => h.current q⟩
  complete := h.complete

theorem serial_does (h : s.Guarded registry) (hm : s.Does m t) (hunlocked : t.unlocked = false) :
    t.Serial registry := by
  cases hm with
  | start p hp | «exists» p deadline hp | stale p deadline hp hstale | fresh p deadline hp
  | again p deadline hp | dropUnheld p lock hp hheld =>
    exact (h.serial hunlocked).goto (fun _ hl => nomatch hl) fun _ _ hnext => nomatch hnext
  | remove p deadline seen hp | dropHeld p lock hp hheld =>
    have hserial := h.serial hunlocked
    have hremoved : (s.removeFile p).Serial registry :=
      ⟨hserial.held, hserial.current, hserial.complete⟩
    exact hremoved.goto (fun _ hl => nomatch hl) fun _ _ hnext => nomatch hnext
  | refused p deadline hp | runOut p deadline hp hlate => exact nomatch hunlocked
  | create p deadline hp hfile =>
    have hentered : (s.goto p (.entered
        { held := true, refused := false, deadline, since := s.now })).Serial registry := by
      apply (h.serial hunlocked).goto
      · intro l hl
        obtain rfl := Option.some.inj hl
        rfl
      · exact fun _ _ hnext => nomatch hnext
    exact ⟨hentered.held, hentered.current, hentered.complete⟩
  | read p lock hp =>
    have hserial := h.serial hunlocked
    have hheld := hserial.held p lock (by rw [locks, hp]; rfl)
    apply hserial.goto
    · intro l hl
      obtain rfl := Option.some.inj hl
      exact hheld
    · intro _ _ hnext
      exact (LockPhase.changing.inj hnext).2.symm
  | write p f lock entries hp =>
    have hserial := h.serial hunlocked
    have hlock : lock ∈ s.locks p := by rw [locks, hp]; rfl
    have hheld := hserial.held p lock hlock
    have hleft : (s.goto p (.leaving lock)).Serial registry := hserial.goto (by
      intro l hl
      obtain rfl := Option.some.inj hl
      exact hheld) fun _ _ hnext => nomatch hnext
    refine ⟨hleft.held, ?_, ?_⟩
    · -- whoever else was changing the registry now would have the lock as well
      refine (Function.forall_update_iff s.phase fun _ x => ∀ lock' entries',
        x = .changing lock' entries' → entries' = f entries).mpr ⟨?_, ?_⟩
      · exact fun _ _ hnext => nomatch hnext
      · intro q hne lock' entries' hq
        have hlock' : lock' ∈ s.locks q := by rw [locks, hq]; rfl
        exact absurd (h.owned.unique hlock' hlock (hserial.held q lock' hlock') hheld) hne
    · show f entries = (s.written ++ [f]).foldl (fun entries f => f entries) registry
      rw [List.foldl_append, ← hserial.complete, hserial.current p lock entries hp]
      rfl
  | fail p lock hp =>
    have hserial := h.serial hunlocked
    apply hserial.goto
    · intro l hl
      obtain rfl := Option.some.inj hl
      exact hserial.held p lock hp
    · exact fun _ _ hnext => nomatch hnext
  | tick ms =>
    have hserial := h.serial hunlocked
    exact ⟨hserial.held, hserial.current, hserial.complete⟩

theorem Guarded.step (h : s.Guarded registry) (hbrief : s.Brief m) (hsame : s.Unchanged m) :
    (s.step m).Guarded registry := by
  rcases s.step_cases m with hnothing | hm
  · rw [hnothing]
    exact h
  · exact ⟨owned_does h hbrief hsame hm, judged_does h hm, respected_does h hsame hm,
      serial_does h hm⟩

end

theorem guarded_init (registry : R) (now : ℕ) (left : Option ℕ) :
    (init registry now left).Guarded registry where
  owned := by
    refine ⟨fun _ _ hl => (nomatch hl), ?_, fun _ _ hl => (nomatch hl), fun _ _ hl => (nomatch hl)⟩
    intro f hf q hq
    obtain ⟨_, _, rfl⟩ := Option.map_eq_some_iff.mp hf
    exact nomatch hq
  judged := by
    refine ⟨?_, fun _ _ _ h => nomatch h⟩
    intro f hf
    obtain ⟨_, _, rfl⟩ := Option.map_eq_some_iff.mp hf
    exact Nat.one_pos
  respected _ hr := absurd hr List.not_mem_nil
  serial _ := ⟨fun _ _ hl => (nomatch hl), fun _ _ _ h => (nomatch h), rfl⟩

/-- While a file that is removed as stale is the one that was looked at, the lock excludes
whoever holds it. -/
theorem excludes_holders (registry : R) (now : ℕ) (left : Option ℕ) (moves : List (LockMove R))
    (h : Meets step (fun s m => s.Brief m ∧ s.Unchanged m) (init registry now left) moves) :
    Throughout step (ExcludesHolders registry) (init registry now left) moves :=
  (throughout_of_meets (P := Guarded registry) (fun _ _ h hm => h.step hm.1 hm.2)
    (guarded_init registry now left) h).imp fun _ h => h.excludesHolders

def broken : List (LockMove ℕ) :=
  [.start 0, .create 0 false, .stat 0, .remove 0, .create 0 false, .read 0, .tick 5,
    .write 0 (· + 1), .drop 0]

theorem excludes_holders_broken :
    Throughout step (ExcludesHolders 7) (init 7 40000 (some 1000)) broken := by
  apply excludes_holders 7 40000 (some 1000) broken
  refine ⟨⟨trivial, trivial⟩, ⟨trivial, trivial⟩, ⟨trivial, trivial⟩, ⟨trivial, ?_⟩,
    ⟨trivial, trivial⟩, ⟨trivial, trivial⟩, ⟨?_, trivial⟩, ⟨trivial, trivial⟩, ⟨trivial, trivial⟩,
    trivial⟩
  · intro deadline seen hseen
    have hlooked : (run step (init 7 40000 (some 1000)) (broken.take 3)).phase 0 =
        .breaking 42000 (some 0) := by decide +kernel
    have hfile : (run step (init 7 40000 (some 1000)) (broken.take 3)).file.map (·.serial) =
        some 0 := by decide +kernel
    obtain ⟨_, rfl⟩ := LockPhase.breaking.inj (hlooked.symm.trans hseen)
    exact hfile
  · rintro (_ | p) l hl _
    · obtain rfl := Option.some.inj hl
      decide
    · exact nomatch hl

/-- A second process waits while the lock goes from the first to a third. -/
def overtaken : List (LockMove ℕ) :=
  [.start 0, .create 0 false, .start 1, .create 1 false, .stat 1, .wait 1, .tick 1500,
    .read 0, .write 0 (· + 1), .drop 0, .start 2, .create 2 false, .tick 600, .create 1 false,
    .stat 1, .wait 1]

/-- It goes on next to the third. -/
theorem excludes_overtaken :
    ¬∀ (R : Type) (registry : R) (now : ℕ) (left : Option ℕ) (moves : List (LockMove R)),
      Meets step Brief (init registry now left) moves →
        Throughout step (Excludes registry) (init registry now left) moves := by
  intro h
  have hbrief : Meets step Brief (init 7 0 none) overtaken := by
    refine ⟨trivial, trivial, trivial, trivial, trivial, trivial, ?_, trivial, trivial, trivial,
      trivial, trivial, ?_, trivial, trivial, trivial, trivial⟩
    · rintro (_ | _ | p) l hl _
      · obtain rfl := Option.some.inj hl
        decide
      · exact nomatch hl
      · exact nomatch hl
    · rintro (_ | _ | _ | p) l hl _
      · exact nomatch hl
      · exact nomatch hl
      · obtain rfl := Option.some.inj hl
        decide
      · exact nomatch hl
  have halone := (h ℕ 7 0 none overtaken hbrief).last.alone 1 2 rfl rfl
  exact absurd halone (by decide)

end Lockers
end JamStream.Cloud
