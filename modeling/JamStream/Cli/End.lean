import JamStream.Cli.State
import JamStream.Cloud.Listing

/-! Ending a session, from the command line and from the app: the machine destroyed, nothing
of it listed, its firewall closed, and the record rewritten without the issuer key. -/

namespace JamStream.Cli
open Foundations Cloud

/-- What the provider, the clock, the output and the disk answer to one end. -/
structure Answers where
  destroy : Except ProviderError Unit
  listing : Except ProviderError Listing
  firewall : Except ProviderError (List String)
  now : ℕ
  prints : ℕ → Except CliError Unit
  saves : Except CliError Unit
  serverLog : Option String

namespace End

def short (sessionIdHex : String) : String := String.ofList (sessionIdHex.toList.take 8)

def alreadyGone (session : SessionState) : String :=
  "Instance " ++ session.instanceId ++ " was already gone; marking the session ended."

def destroyed (a : Answers) (session : SessionState) : Command Desk CliError Unit :=
  match a.destroy with
  | .ok () => pure ()
  | .error (.notFound _) => writeln a.prints (alreadyGone session)
  | .error e => throw (.provider e)

def nothingListed (a : Answers) (session : SessionState) : Command Desk CliError Unit := do
  let listing ← Command.answer (a.listing.mapError .provider)
  if listing.instances = [] then pure ()
  else throw (.failed (toString listing.instances.length ++ " instance(s) still listed for session "
    ++ short session.sessionIdHex ++ " after destroy; run jamstream sweep"))

def firewallLine : Except ProviderError (List String) → Option String
  | .ok [] => none
  | .ok names => some ("Closed " ++ toString names.length ++ " session firewall(s).")
  | .error e => some ("Could not close the session firewall (" ++ e.display ++
      "); jamstream sweep will retry.")

def firewallClosed (a : Answers) : Command Desk CliError Unit :=
  match firewallLine a.firewall with
  | none => pure ()
  | some line => writeln a.prints line

def reported (a : Answers) (session : SessionState) : Command Desk CliError Unit := do
  writeln a.prints ("Session " ++ short session.sessionIdHex ++ " ended. Instance " ++
    session.instanceId ++ " is destroyed.")
  match a.serverLog with
  | some log => writeln a.prints ("The session server's log is at " ++ log ++ ".")
  | none => pure ()

def run (a : Answers) (session : SessionState) : Command Desk CliError Unit := do
  destroyed a session
  nothingListed a session
  firewallClosed a
  writeTo a.saves (session.markEnded a.now)
  reported a session

end End

namespace App

def destroyed (a : Answers) : Command Desk String Unit :=
  match a.destroy with
  | .ok () => pure ()
  | .error (.notFound _) => pure ()
  | .error e => throw e.display

def nothingListed (a : Answers) : Command Desk String Unit := do
  let listing ← Command.answer (a.listing.mapError ProviderError.display)
  if listing.instances = [] then pure ()
  else throw (toString listing.instances.length ++ " instance(s) still listed after destroy; " ++
    "press Stop strays on the home screen, or run jamstream sweep")

/-- The app's end of a session: what comes of the firewall is only logged. -/
def endSession (a : Answers) (session : SessionState) : Command Desk String Unit := do
  destroyed a
  nothingListed a
  writeTo (a.saves.mapError CliError.display)
    { session.forgetIssuerKey with
      status := .ended
      endedUnix := some a.now }

end App

/-! ## Verdicts -/

def Desk.clear : Desk := ⟨[], []⟩

def records {ε : Type} (m : Command Desk ε Unit) : List SessionState := (m.ends .clear).2.written

theorem records_eq {ε : Type} {before rest : Command Desk ε Unit} {saves : Except ε Unit}
    {session : SessionState} {P : Prop} [Decidable P]
    (hbefore : (∃ t, before.ends .clear = (.ok (), t)) ↔ P)
    (hkeeps : Command.Keeps Desk.written before) (hrest : Command.Keeps Desk.written rest) :
    records (before >>= fun _ => writeTo saves session >>= fun _ => rest) =
      if P ∧ saves.isOk then [session] else [] := by
  unfold records
  rcases hends : before.ends .clear with ⟨e | _, t⟩
  · have hfails : ¬P := by
      rw [← hbefore]
      rintro ⟨t', h⟩
      exact nomatch congrArg Prod.fst (hends.symm.trans h)
    have hstate := hkeeps .clear
    rw [hends] at hstate
    rw [Command.ends_bind_error hends, if_neg fun h => hfails h.1]
    exact hstate
  · have hP : P := hbefore.mp ⟨t, hends⟩
    have hstate : t.written = [] := by
      have h := hkeeps .clear
      rw [hends] at h
      exact h
    rw [Command.ends_bind_ok hends]
    rcases saves with e | _
    · have hstopped : ¬(P ∧ (Except.error e : Except ε Unit).isOk) := fun h => nomatch h.2
      rw [Command.ends_bind_error (ends_writeTo (.error e) session t), if_neg hstopped]
      exact hstate
    · have hsaved : P ∧ (Except.ok () : Except ε Unit).isOk := ⟨hP, rfl⟩
      rw [Command.ends_bind_ok (ends_writeTo (.ok ()) session t), if_pos hsaved, hrest]
      show t.written ++ [session] = [session]
      rw [hstate]
      rfl

theorem ends_listing_iff {ε : Type} {a : Answers} {refuse : ProviderError → ε}
    {shown : Listing → ε} {s t : Desk} :
    (Command.answer (a.listing.mapError refuse) >>= fun listing =>
        if listing.instances = [] then pure () else throw (shown listing)).ends s = (.ok (), t) ↔
      (∃ listing, a.listing = .ok listing ∧ listing.instances = []) ∧ t = s := by
  rw [Command.ends_bind_iff]
  constructor
  · rintro ⟨listing, s', hanswer, hrest⟩
    obtain ⟨hlisting, rfl⟩ := Prod.mk.inj hanswer
    rcases ha : a.listing with e | found
    · rw [ha] at hlisting
      exact nomatch hlisting
    rw [ha] at hlisting
    obtain rfl := Except.ok.inj hlisting
    by_cases hempty : found.instances = []
    · rw [if_pos hempty] at hrest
      exact ⟨⟨found, rfl, hempty⟩, (congrArg Prod.snd hrest).symm⟩
    · rw [if_neg hempty] at hrest
      exact nomatch congrArg Prod.fst hrest
  · rintro ⟨⟨listing, hlisting, hempty⟩, rfl⟩
    refine ⟨listing, t, ?_, ?_⟩
    · rw [hlisting]
      rfl
    · rw [if_pos hempty]
      rfl

theorem keeps_listing {ε : Type} {a : Answers} {refuse : ProviderError → ε}
    {shown : Listing → ε} :
    Command.Keeps Desk.written (Command.answer (a.listing.mapError refuse) >>= fun listing =>
      if listing.instances = [] then pure () else throw (shown listing)) := by
  apply Command.keeps_bind (Command.keeps_answer _)
  intro listing
  split_ifs
  · exact Command.keeps_pure ()
  · exact Command.keeps_throw _

namespace Answers
variable {a : Answers} {session : SessionState}

/-- The machine is destroyed or was gone, and nothing the listing shows is left. -/
def Gone (a : Answers) : Prop :=
  (a.destroy = .ok () ∨ ∃ message, a.destroy = .error (.notFound message)) ∧
    ∃ listing, a.listing = .ok listing ∧ listing.instances = []

def SeenGone (a : Answers) : Prop :=
  ∃ listing, a.listing = .ok listing ∧ listing.isComplete ∧ listing.instances = []

def goneLines (a : Answers) (session : SessionState) : List String :=
  match a.destroy with
  | .error (.notFound _) => [End.alreadyGone session]
  | _ => []

theorem seenGone_iff {regions : List RegionId} {joined : List Listed} {listing : Listing}
    (hlisting : a.listing = .ok listing) (hlisted : listTagged regions joined = .ok listing) :
    a.SeenGone ↔ (∀ region ∈ regions, ∃ parsed, .ok (region, .ok parsed) ∈ joined) ∧
      ∀ region parsed, .ok (region, .ok parsed) ∈ joined → parsed = [] := by
  have hempty : listing.instances = [] ↔
      ∀ region parsed, .ok (region, .ok parsed) ∈ joined → parsed = [] := by
    rw [List.eq_nil_iff_forall_not_mem]
    constructor
    · intro h region parsed htask
      exact List.eq_nil_iff_forall_not_mem.mpr fun i hi =>
        h i ((mem_instances_iff hlisted).mpr ⟨region, parsed, htask, hi⟩)
    · intro h i hi
      obtain ⟨region, parsed, htask, hparsed⟩ := (mem_instances_iff hlisted).mp hi
      rw [h region parsed htask] at hparsed
      exact List.not_mem_nil hparsed
  rw [← isComplete_iff hlisted, ← hempty]
  constructor
  · rintro ⟨found, hfound, hcomplete, hnone⟩
    obtain rfl := Except.ok.inj (hlisting.symm.trans hfound)
    exact ⟨hcomplete, hnone⟩
  · exact fun h => ⟨listing, hlisting, h⟩

/-- What the command line prints before it writes the record. -/
def linesBefore (a : Answers) (session : SessionState) : List String :=
  a.goneLines session ++ (End.firewallLine a.firewall).toList

def Printed (a : Answers) (session : SessionState) : Prop :=
  ∀ k < (a.linesBefore session).length, a.prints k = .ok ()

end Answers

namespace End
variable {a : Answers} {session : SessionState}

theorem ends_destroyed_iff {t : Desk} :
    (destroyed a session).ends .clear = (.ok (), t) ↔
      (a.destroy = .ok () ∨ ∃ message, a.destroy = .error (.notFound message)) ∧
        (∀ k < (a.goneLines session).length, a.prints k = .ok ()) ∧
          t = ⟨a.goneLines session, []⟩ := by
  unfold destroyed Answers.goneLines
  rcases a.destroy with error | _
  · rcases error with _ | _ | message | _ | _ | _
    case notFound =>
      have hline : (∀ k < [alreadyGone session].length, a.prints k = .ok ()) ↔
          a.prints 0 = .ok () :=
        ⟨fun h => h 0 Nat.one_pos, fun h k hk => Nat.lt_one_iff.mp hk ▸ h⟩
      rw [ends_writeln_iff, hline]
      exact (and_iff_right (.inr ⟨message, rfl⟩)).symm
    all_goals
      apply iff_of_false
      · exact fun h => nomatch congrArg Prod.fst h
      · rintro ⟨h | ⟨_, h⟩, -⟩ <;> exact nomatch h
  · constructor
    · intro h
      exact ⟨.inl rfl, fun k hk => absurd hk (Nat.not_lt_zero k), (congrArg Prod.snd h).symm⟩
    · rintro ⟨-, -, rfl⟩
      rfl

theorem ends_firewallClosed_iff {s t : Desk} :
    (firewallClosed a).ends s = (.ok (), t) ↔
      (∀ k < (firewallLine a.firewall).toList.length, a.prints (s.out.length + k) = .ok ()) ∧
        t = { s with out := s.out ++ (firewallLine a.firewall).toList } := by
  unfold firewallClosed
  rcases firewallLine a.firewall with _ | line
  · constructor
    · intro h
      refine ⟨fun k hk => absurd hk (Nat.not_lt_zero k), ?_⟩
      have hstate : s = t := congrArg Prod.snd h
      rw [Option.toList_none, List.append_nil, ← hstate]
    · rintro ⟨-, rfl⟩
      rw [Option.toList_none, List.append_nil]
      rfl
  · rw [ends_writeln_iff]
    apply and_congr_left'
    constructor
    · intro h k hk
      obtain rfl := Nat.lt_one_iff.mp hk
      exact h
    · exact fun h => h 0 Nat.one_pos

/-- What is done before the record is written succeeds exactly if nothing is left and every
line goes out. -/
theorem ends_before_iff {t : Desk} :
    (destroyed a session >>= fun _ => nothingListed a session >>= fun _ =>
        firewallClosed a).ends .clear = (.ok (), t) ↔
      (a.Gone ∧ a.Printed session) ∧ t = ⟨a.linesBefore session, []⟩ := by
  have hprinted : a.Printed session ↔ (∀ k < (a.goneLines session).length, a.prints k = .ok ()) ∧
      ∀ k < (firewallLine a.firewall).toList.length,
        a.prints ((a.goneLines session).length + k) = .ok () := by
    unfold Answers.Printed Answers.linesBefore
    rw [List.length_append]
    constructor
    · exact fun h => ⟨fun k hk => h k (Nat.lt_add_right _ hk), fun k hk =>
        h _ (Nat.add_lt_add_left hk _)⟩
    · rintro ⟨hfirst, hsecond⟩ k hk
      rcases Nat.lt_or_ge k (a.goneLines session).length with hless | hmore
      · exact hfirst k hless
      · obtain ⟨j, rfl⟩ := Nat.exists_eq_add_of_le hmore
        exact hsecond j (Nat.lt_of_add_lt_add_left hk)
  rw [Command.ends_bind_iff, hprinted]
  constructor
  · rintro ⟨_, s, hdestroyed, hrest⟩
    obtain ⟨hdestroy, hgone, rfl⟩ := ends_destroyed_iff.mp hdestroyed
    obtain ⟨_, s', hlisted, hclosed⟩ := Command.ends_bind_iff.mp hrest
    obtain ⟨hlisting, rfl⟩ := ends_listing_iff.mp hlisted
    obtain ⟨hfirewall, rfl⟩ := ends_firewallClosed_iff.mp hclosed
    exact ⟨⟨⟨hdestroy, hlisting⟩, hgone, hfirewall⟩, rfl⟩
  · rintro ⟨⟨⟨hdestroy, hlisting⟩, hgone, hfirewall⟩, rfl⟩
    refine ⟨(), _, ends_destroyed_iff.mpr ⟨hdestroy, hgone, rfl⟩, ?_⟩
    refine Command.ends_bind_iff.mpr ⟨(), _, ends_listing_iff.mpr ⟨hlisting, rfl⟩, ?_⟩
    exact ends_firewallClosed_iff.mpr ⟨hfirewall, rfl⟩

theorem keeps_reported : Command.Keeps Desk.written (reported a session) := by
  apply Command.keeps_bind keeps_writeln
  intro _
  rcases a.serverLog with _ | log
  · exact Command.keeps_pure ()
  · exact keeps_writeln

theorem keeps_destroyed : Command.Keeps Desk.written (destroyed a session) := by
  unfold destroyed
  rcases a.destroy with error | _
  · rcases error with _ | _ | _ | _ | _ | _
    case notFound => exact keeps_writeln
    all_goals exact Command.keeps_throw _
  · exact Command.keeps_pure ()

theorem keeps_firewallClosed : Command.Keeps Desk.written (firewallClosed a) := by
  unfold firewallClosed
  rcases firewallLine a.firewall with _ | line
  · exact Command.keeps_pure ()
  · exact keeps_writeln

open Classical in
theorem records_run : records (run a session) =
    if (a.Gone ∧ a.Printed session) ∧ a.saves.isOk then [session.markEnded a.now] else [] := by
  have hrun : run a session = (destroyed a session >>= fun _ => nothingListed a session >>=
      fun _ => firewallClosed a) >>= fun _ => writeTo a.saves (session.markEnded a.now) >>=
        fun _ => reported a session := by
    unfold run
    simp only [bind_assoc]
  rw [hrun]
  apply records_eq
  · exact ⟨fun ⟨t, h⟩ => (ends_before_iff.mp h).1, fun h => ⟨_, ends_before_iff.mpr ⟨h, rfl⟩⟩⟩
  · exact Command.keeps_bind keeps_destroyed fun _ =>
      Command.keeps_bind keeps_listing fun _ => keeps_firewallClosed
  · exact keeps_reported

end End

namespace App
variable {a : Answers} {session : SessionState}

theorem ends_destroyed_iff {t : Desk} :
    (destroyed a).ends .clear = (.ok (), t) ↔
      (a.destroy = .ok () ∨ ∃ message, a.destroy = .error (.notFound message)) ∧ t = .clear := by
  unfold destroyed
  rcases a.destroy with error | _
  · rcases error with _ | _ | message | _ | _ | _
    case notFound =>
      constructor
      · exact fun h => ⟨.inr ⟨message, rfl⟩, (congrArg Prod.snd h).symm⟩
      · rintro ⟨-, rfl⟩
        rfl
    all_goals
      apply iff_of_false
      · exact fun h => nomatch congrArg Prod.fst h
      · rintro ⟨h | ⟨_, h⟩, -⟩ <;> exact nomatch h
  · constructor
    · exact fun h => ⟨.inl rfl, (congrArg Prod.snd h).symm⟩
    · rintro ⟨-, rfl⟩
      rfl

theorem keeps_destroyed : Command.Keeps Desk.written (destroyed a) := by
  unfold destroyed
  rcases a.destroy with error | _
  · rcases error with _ | _ | _ | _ | _ | _
    case notFound => exact Command.keeps_pure ()
    all_goals exact Command.keeps_throw _
  · exact Command.keeps_pure ()

open Classical in
theorem records_endSession : records (endSession a session) =
    if a.Gone ∧ a.saves.isOk then [session.markEnded a.now] else [] := by
  have hend : endSession a session = (destroyed a >>= fun _ => nothingListed a) >>=
      fun _ => writeTo (a.saves.mapError CliError.display) (session.markEnded a.now) >>=
        fun _ => pure () := by
    unfold endSession
    simp only [bind_assoc, bind_pure_comp, id_map']
    rfl
  have hsaves : (a.saves.mapError CliError.display).isOk = a.saves.isOk := by
    rcases a.saves with _ | _ <;> rfl
  rw [hend, ← hsaves]
  apply records_eq
  · constructor
    · rintro ⟨t, h⟩
      obtain ⟨_, s, hdestroyed, hlisted⟩ := Command.ends_bind_iff.mp h
      exact ⟨(ends_destroyed_iff.mp hdestroyed).1, (ends_listing_iff.mp hlisted).1⟩
    · rintro ⟨hdestroy, hlisting⟩
      exact ⟨_, Command.ends_bind_iff.mpr ⟨(), _, ends_destroyed_iff.mpr ⟨hdestroy, rfl⟩,
        ends_listing_iff.mpr ⟨hlisting, rfl⟩⟩⟩
  · exact Command.keeps_bind keeps_destroyed fun _ => keeps_listing
  · exact Command.keeps_pure ()

end App

/-! ## Evidence -/

/-- Neither surface closes a record without having seen that nothing is left anywhere, and
both come to the same record. -/
structure OnEvidence (a : Answers) (session : SessionState) : Prop where
  cli : records (End.run a session) ≠ [] → a.SeenGone
  app : records (App.endSession a session) ≠ [] → a.SeenGone
  same : records (End.run a session) = records (App.endSession a session)

theorem onEvidence_iff (a : Answers) (session : SessionState) :
    OnEvidence a session ↔
      (a.Gone → a.saves.isOk →
        (∀ listing, a.listing = .ok listing → listing.isComplete) ∧ a.Printed session) := by
  classical
  have hseen : a.Gone →
      (a.SeenGone ↔ ∀ listing, a.listing = .ok listing → listing.isComplete) := by
    rintro ⟨-, found, hfound, hempty⟩
    constructor
    · rintro ⟨listing, hlisting, hcomplete, -⟩ other hother
      obtain rfl := Except.ok.inj (hlisting.symm.trans hother)
      exact hcomplete
    · exact fun h => ⟨found, hfound, h found hfound, hempty⟩
  by_cases hcloses : a.Gone ∧ a.saves.isOk
  · have happ := @App.records_endSession a session
    have hrun := @End.records_run a session
    rw [if_pos hcloses] at happ
    constructor
    · -- the app closes the record here, so both of its reasons have to hold of the command line
      intro h _ _
      refine ⟨(hseen hcloses.1).mp (h.app ?_), ?_⟩
      · rw [happ]
        exact List.cons_ne_nil _ _
      · by_contra hprinted
        have hsame := h.same
        rw [happ, hrun, if_neg fun h => hprinted h.1.2] at hsame
        exact List.cons_ne_nil _ _ hsame.symm
    · intro h
      obtain ⟨hcomplete, hprinted⟩ := h hcloses.1 hcloses.2
      rw [if_pos ⟨⟨hcloses.1, hprinted⟩, hcloses.2⟩] at hrun
      exact ⟨fun _ => (hseen hcloses.1).mpr hcomplete, fun _ => (hseen hcloses.1).mpr hcomplete,
        hrun.trans happ.symm⟩
  · -- neither surface writes a record, and there is nothing to be wrong about
    have happ : records (App.endSession a session) = [] := by
      rw [App.records_endSession, if_neg hcloses]
    have hrun : records (End.run a session) = [] := by
      rw [End.records_run, if_neg fun h => hcloses ⟨h.1.1, h.2⟩]
    exact iff_of_true ⟨fun h => absurd hrun h, fun h => absurd happ h, hrun.trans happ.symm⟩
      fun hgone hsaves => absurd ⟨hgone, hsaves⟩ hcloses

/-- One region answers that it has nothing, and the other is throttled: both surfaces close the
record and drop its key. -/
theorem onEvidence_throttled :
    let a : Answers :=
      { destroy := .ok ()
        listing := listTagged ["eu-west-1", "us-east-1"]
          [.ok ("us-east-1", .ok []), .ok ("eu-west-1", .error (.rateLimited none))]
        firewall := .ok []
        now := 60
        prints := fun _ => .ok ()
        saves := .ok ()
        serverLog := none }
    let session : SessionState :=
      ⟨"5e55101d", "aws", "us-east-1", "i-1", 0, "key", .running, none⟩
    a.listing = .ok ⟨[], ["eu-west-1"]⟩ ∧
      records (End.run a session) =
        [⟨"5e55101d", "aws", "us-east-1", "i-1", 0, "", .ended, some 60⟩] ∧
      ¬OnEvidence a session := by
  intro a session
  have hlisting : a.listing = .ok ⟨[], ["eu-west-1"]⟩ := by
    show (Except.ok ⟨List.mergeSort [] _, List.mergeSort ["eu-west-1"] _⟩ :
      Except ProviderError Listing) = _
    rw [List.mergeSort_nil, List.mergeSort_singleton]
  have hgone : a.Gone := ⟨.inl rfl, _, hlisting, rfl⟩
  have hprinted : a.Printed session := fun _ _ => rfl
  refine ⟨hlisting, ?_, ?_⟩
  · rw [End.records_run, if_pos ⟨⟨hgone, hprinted⟩, rfl⟩]
    rfl
  · rintro ⟨-, happ, -⟩
    have hwritten : records (App.endSession a session) ≠ [] := by
      rw [App.records_endSession, if_pos ⟨hgone, rfl⟩]
      exact List.cons_ne_nil _ _
    obtain ⟨listing, hsame, hcomplete, -⟩ := happ hwritten
    obtain rfl := Except.ok.inj (hlisting.symm.trans hsame)
    exact nomatch hcomplete

end JamStream.Cli
