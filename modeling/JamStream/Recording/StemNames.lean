import JamStream.Recording.Closing
import JamStream.Recording.TakeNames

/-! The names of a take's stems: what each musician's file would be called by name alone, when
two files of a take are given one name, and that the recorder opens no others. -/

namespace JamStream.Recording
open Protocol Session Engine Runs
open Std (ExtTreeMap)

/-- What a file is called for, before other files are looked at. -/
def ownName (X : Encoding) (roster : List (MemberId × String)) (id : MemberId) : String :=
  (((roster.find? fun e => e.1 = id).map fun e => sanitize X e.2).filter
    fun name => !name.isEmpty).getD ("member-" ++ toString id.toNat)

def numbered (X : Encoding) (roster : List (MemberId × String)) (id : MemberId) : String :=
  ownName X roster id ++ "-" ++ toString id.toNat

def partNames (X : Encoding) (roster : List (MemberId × String)) (order : List MemberId) :
    List String :=
  order.foldl (fun used id => used ++ [stemName X roster used id]) ["mix"]

variable {X : Encoding} {roster : List (MemberId × String)} {order earlier : List MemberId}
  {id other : MemberId}

theorem stemName_eq (X : Encoding) (roster : List (MemberId × String)) (used : List String)
    (id : MemberId) :
    stemName X roster used id =
      if used.contains (ownName X roster id) then numbered X roster id
      else ownName X roster id := rfl

theorem stemName_taken {used : List String} (h : ownName X roster id ∈ used) :
    stemName X roster used id = numbered X roster id := by
  rw [stemName_eq, if_pos (List.contains_iff_mem.mpr h)]

theorem stemName_free {used : List String} (h : ownName X roster id ∉ used) :
    stemName X roster used id = ownName X roster id := by
  rw [stemName_eq, if_neg (fun hin => h (List.contains_iff_mem.mp hin))]

theorem partNames_append (X : Encoding) (roster : List (MemberId × String))
    (earlier : List MemberId) (id : MemberId) :
    partNames X roster (earlier ++ [id]) =
      partNames X roster earlier ++ [stemName X roster (partNames X roster earlier) id] := by
  unfold partNames
  rw [List.foldl_append]
  rfl

theorem toList_toString (n : ℕ) : (toString n).toList = padded 0 n := by
  have hdigits : toString n = String.ofList (Nat.toDigits 10 n) := rfl
  rw [hdigits, String.toList_ofList]
  unfold padded List.leftpad
  rw [Nat.zero_sub]
  rfl

theorem dash_notMem_toString (n : ℕ) : '-' ∉ (toString n).toList := by
  rw [toList_toString]
  exact dash_notMem_padded 0 n

theorem toList_numbered (X : Encoding) (roster : List (MemberId × String)) (id : MemberId) :
    (numbered X roster id).toList =
      (ownName X roster id).toList ++ '-' :: (toString id.toNat).toList := by
  unfold numbered
  rw [String.toList_append, String.toList_append, List.append_assoc]
  rfl

theorem toString_injective {m n : ℕ} (h : toString m = toString n) : m = n := by
  have hlist := congrArg String.toList h
  rw [toList_toString, toList_toString] at hlist
  exact padded_injective 0 hlist

theorem numbered_inj (h : numbered X roster id = numbered X roster other) : id = other := by
  have hlist := congrArg List.reverse (congrArg String.toList h)
  rw [toList_numbered, toList_numbered, List.reverse_append, List.reverse_append,
    List.reverse_cons, List.reverse_cons, List.append_assoc, List.append_assoc] at hlist
  have hdigits := append_cons_inj
    (fun hin => dash_notMem_toString _ (List.mem_reverse.mp hin))
    (fun hin => dash_notMem_toString _ (List.mem_reverse.mp hin)) hlist
  have hnumber := toString_injective (String.toList_inj.mp (List.reverse_injective hdigits.1))
  exact UInt16.toNat_inj.mp hnumber

theorem numbered_ne_mix (X : Encoding) (roster : List (MemberId × String)) (id : MemberId) :
    numbered X roster id ≠ "mix" := by
  intro h
  have hdash : '-' ∈ (numbered X roster id).toList := by
    rw [toList_numbered]
    exact List.mem_append_right _ (List.mem_cons_self ..)
  rw [h] at hdash
  exact absurd hdash (by decide)

theorem ownName_mem (X : Encoding) (roster : List (MemberId × String)) {earlier : List MemberId}
    {id : MemberId} (h : id ∈ earlier) : ownName X roster id ∈ partNames X roster earlier := by
  induction earlier using List.reverseRecOn with
  | nil => exact absurd h List.not_mem_nil
  | append_singleton earlier last ih =>
    rw [partNames_append, List.mem_append]
    rcases List.mem_append.mp h with hbefore | hlast
    · exact Or.inl (ih hbefore)
    · obtain rfl := List.mem_singleton.mp hlast
      by_cases hused : ownName X roster id ∈ partNames X roster earlier
      · exact Or.inl hused
      · rw [stemName_free hused]
        exact Or.inr (List.mem_singleton.mpr rfl)

theorem numbered_mem_iff (hid : id ∉ earlier) :
    numbered X roster id ∈ partNames X roster earlier ↔
      ∃ other ∈ earlier, ownName X roster other = numbered X roster id := by
  constructor
  · intro h
    induction earlier using List.reverseRecOn with
    | nil => exact absurd (List.mem_singleton.mp h) (numbered_ne_mix X roster id)
    | append_singleton earlier last ih =>
      rw [List.mem_append, not_or] at hid
      rw [partNames_append, List.mem_append] at h
      rcases h with hbefore | hlast
      · obtain ⟨other, hother, hname⟩ := ih hid.1 hbefore
        exact ⟨other, List.mem_append_left _ hother, hname⟩
      · have hname := List.mem_singleton.mp hlast
        by_cases hused : ownName X roster last ∈ partNames X roster earlier
        · -- a number of somebody else's
          rw [stemName_taken hused] at hname
          exact absurd (List.mem_singleton.mpr (numbered_inj hname)) hid.2
        · rw [stemName_free hused] at hname
          exact ⟨last, List.mem_append_right _ (List.mem_singleton.mpr rfl), hname.symm⟩
  · rintro ⟨other, hother, hname⟩
    rw [← hname]
    exact ownName_mem X roster hother

/-- Nobody whose name is taken finds somebody else going by that name with their number. -/
def NoneNumberedSo (X : Encoding) (roster : List (MemberId × String)) (order : List MemberId) :
    Prop :=
  ∀ earlier id, earlier ++ [id] <+: order → ownName X roster id ∈ partNames X roster earlier →
    ∀ other ∈ earlier, ownName X roster other ≠ numbered X roster id

theorem stemName_mem_iff (hid : id ∉ earlier) :
    stemName X roster (partNames X roster earlier) id ∈ partNames X roster earlier ↔
      ownName X roster id ∈ partNames X roster earlier ∧
        ∃ other ∈ earlier, ownName X roster other = numbered X roster id := by
  by_cases hused : ownName X roster id ∈ partNames X roster earlier
  · rw [stemName_taken hused, numbered_mem_iff hid]
    exact (and_iff_right hused).symm
  · rw [stemName_free hused]
    exact ⟨fun h => absurd h hused, fun h => absurd h.1 hused⟩

theorem partNames_nodup_iff (hnodup : order.Nodup) :
    (partNames X roster order).Nodup ↔ NoneNumberedSo X roster order := by
  induction order using List.reverseRecOn with
  | nil =>
    refine ⟨fun _ earlier id hfront => ?_, fun _ => List.nodup_singleton _⟩
    have hlength := hfront.length_le
    rw [List.length_append, List.length_singleton, List.length_nil] at hlength
    omega
  | append_singleton order last ih =>
    have horder := hnodup.of_append_left
    have hlast : last ∉ order := fun hin =>
      List.disjoint_of_nodup_append hnodup hin (List.mem_singleton.mpr rfl)
    rw [partNames_append, List.nodup_append', ih horder, List.disjoint_singleton,
      stemName_mem_iff hlast, and_iff_right (List.nodup_singleton _)]
    constructor
    · rintro ⟨hbefore, hnew⟩ earlier id hfront hused other hother hname
      rcases List.prefix_concat_iff.mp hfront with hwhole | hproper
      · obtain ⟨rfl, hsame⟩ := List.append_inj' hwhole rfl
        obtain rfl := List.singleton_inj.mp hsame
        exact hnew ⟨hused, other, hother, hname⟩
      · exact hbefore earlier id hproper hused other hother hname
    · intro hall
      refine ⟨fun earlier id hfront => hall earlier id
        (hfront.trans (List.prefix_append order [last])), ?_⟩
      rintro ⟨hused, other, hother, hname⟩
      exact hall order last (List.prefix_refl _) hused other hother hname

theorem objectName_injective (base : String) : Function.Injective (objectName base) := by
  intro part part' h
  have hlist := congrArg String.toList h
  rw [toList_objectName, toList_objectName] at hlist
  have htail := List.tail_eq_of_cons_eq (List.append_cancel_left hlist)
  rw [String.toList_append, String.toList_append] at htail
  exact String.toList_inj.mp (List.append_cancel_right htail)

/-- The names opened from one state of the sink to a later one. -/
def OpensOnly (s s' : Sink) (names : List String) : Prop :=
  ∃ more, s'.log = s.log ++ more ∧ more.filterMap opened? = names

namespace OpensOnly
variable {s s' s'' : Sink} {names names' : List String}

theorem refl (s : Sink) : OpensOnly s s [] := ⟨[], (List.append_nil _).symm, rfl⟩

theorem trans (h : OpensOnly s s' names) (h' : OpensOnly s' s'' names') :
    OpensOnly s s'' (names ++ names') := by
  obtain ⟨more, hlog, rfl⟩ := h
  obtain ⟨more', hlog', rfl⟩ := h'
  refine ⟨more ++ more', ?_, List.filterMap_append⟩
  rw [hlog', hlog, List.append_assoc]

theorem then_none (h : OpensOnly s s' names) (h' : OpensOnly s' s'' []) :
    OpensOnly s s'' names := by
  have hboth := h.trans h'
  rwa [List.append_nil] at hboth

theorem names_eq (h : OpensOnly s s' names) :
    (s'.log.drop s.log.length).filterMap opened? = names := by
  obtain ⟨more, hlog, hnames⟩ := h
  rw [hlog, List.drop_left]
  exact hnames

theorem record (s : Sink) {event : SinkEvent} (err : Option String)
    (h : ∀ name, event ≠ .opening name) : OpensOnly s (s.record event err) [] := by
  refine ⟨[(event, err)], rfl, ?_⟩
  cases event with
  | opening name => exact absurd rfl (h name)
  | write object site chunk => rfl
  | spoilt object site => rfl
  | finish object => rfl
  | abort object => rfl

theorem put (s : Sink) (object : ℕ) (site : Site) (encoded : Except String Bytes) :
    OpensOnly s (s.put object site encoded).1 [] := by
  cases encoded with
  | error e => exact record s _ fun _ h => SinkEvent.noConfusion h
  | ok chunk => exact record s _ fun _ h => SinkEvent.noConfusion h

theorem putAny (s : Sink) (object : ℕ) (site : Site) (encoded : Except String Bytes) :
    OpensOnly s (s.putAny object site encoded).1 [] := by
  unfold Sink.putAny
  split
  · exact refl s
  · exact put s object site encoded

theorem finish (X : Encoding) (t : Track) (s : Sink) : OpensOnly s (t.finish X s).1 [] := by
  have htail := putAny s t.object .tail (t.enc.finish X)
  unfold Track.finish
  split
  · rename_i heq
    rwa [heq] at htail
  · rename_i heq
    rw [heq] at htail
    exact htail.then_none (record _ _ fun _ h => SinkEvent.noConfusion h)

theorem finishAll (X : Encoding) (tracks : List Track) (s : Sink) :
    OpensOnly s (Recorder.finishAll X tracks s).1 [] := by
  induction tracks generalizing s with
  | nil => exact refl s
  | cons track rest ih => exact (finish X track s).then_none (ih _)

theorem abortAll (tracks : List Track) (s : Sink) :
    OpensOnly s (tracks.foldl (fun s track => track.abort s) s) [] := by
  induction tracks generalizing s with
  | nil => exact refl s
  | cons track rest ih =>
    exact (record s _ fun _ h => SinkEvent.noConfusion h).then_none (ih _)

theorem push (t : Track) (s : Sink) (site : Site) (pcm : Stereo X.toAudio) :
    OpensOnly s (t.push s site pcm).1 [] := putAny s t.object site _

theorem backfill (X : Encoding) (n : ℕ) (s : Sink) (track : Track) :
    OpensOnly s (Take.backfill X n s track).1 [] := by
  induction n generalizing s track with
  | zero => exact refl s
  | succ n ih =>
    have hpush := push track s .backfill (silentTick X)
    unfold Take.backfill
    split
    · rename_i heq
      rwa [heq] at hpush
    · rename_i heq
      rw [heq] at hpush
      exact hpush.then_none (ih _ _)

end OpensOnly

/-- Something is opened under a name, or nothing is and that is an error. -/
def OpensOrFails {α : Type} (s : Sink) (file : String) (r : Sink × Except String α) : Prop :=
  OpensOnly s r.1 [file] ∨ OpensOnly s r.1 [] ∧ ∃ e, r.2 = .error e

namespace OpensOrFails
variable {α β : Type} {s s' : Sink} {file : String}

theorem call (s : Sink) (file : String) : OpensOrFails s file (s.call (.opening file)) := by
  unfold OpensOrFails Sink.call
  cases hfails : s.fails s.log.length with
  | none => exact Or.inl ⟨[(.opening file, none)], rfl, rfl⟩
  | some e => exact Or.inr ⟨⟨[(.opening file, some e)], rfl, rfl⟩, e, rfl⟩

theorem fails {e : String} (h : OpensOrFails s file (s', (.error e : Except String α))) :
    OpensOrFails s file (s', (.error e : Except String β)) :=
  h.imp_right fun hnone => ⟨hnone.1, e, rfl⟩

theorem goes_on {a : α} (h : OpensOrFails s file (s', .ok a)) {r : Sink × Except String β}
    (hrest : OpensOnly s' r.1 []) : OpensOrFails s file r := by
  rcases h with hopened | ⟨-, e, herror⟩
  · exact Or.inl (hopened.then_none hrest)
  · cases herror

theorem openTrack (X : Encoding) (s : Sink) (file : String) :
    OpensOrFails s file (Track.openTrack X s file) := by
  have hcall := call s file
  unfold Track.openTrack
  split
  · rename_i heq
    rw [heq] at hcall
    exact hcall.fails
  · rename_i opened heq
    rw [heq] at hcall
    have hheader := OpensOnly.put opened s.log.length .header (FlacEncoder.header X)
    simp only
    split
    · rename_i heq
      rw [heq] at hheader
      exact hcall.goes_on hheader
    · rename_i heq
      rw [heq] at hheader
      exact hcall.goes_on hheader

theorem openWithHead (X : Encoding) (s : Sink) (file : String) (head : Bytes)
    (frames pending : ℕ) :
    OpensOrFails s file (Track.openWithHead X s file head frames pending) := by
  have hcall := call s file
  unfold Track.openWithHead
  split
  · rename_i heq
    rw [heq] at hcall
    exact hcall.fails
  · rename_i opened heq
    rw [heq] at hcall
    have hheader := OpensOnly.put opened s.log.length .header (FlacEncoder.header X)
    simp only
    split
    · rename_i heq
      rw [heq] at hheader
      exact hcall.goes_on hheader
    · rename_i heq
      rw [heq] at hheader
      have hhead := hheader.then_none (OpensOnly.put _ s.log.length .head (.ok head))
      split
      · rename_i heq
        rw [heq] at hhead
        exact hcall.goes_on hhead
      · rename_i heq
        rw [heq] at hhead
        exact hcall.goes_on hhead

theorem openStemTrack (X : Encoding) (t : Take) (s : Sink) (file : String) :
    OpensOrFails s file (t.openStemTrack X s file) := by
  unfold Take.openStemTrack
  split
  · exact openWithHead X s file _ _ _
  · have hopened := openTrack X s file
    split
    · rename_i heq
      rw [heq] at hopened
      exact hopened.fails
    · rename_i heq
      rw [heq] at hopened
      exact hopened.goes_on (OpensOnly.backfill X _ _ _)

end OpensOrFails

/-- A take in which these musicians were heard first in this order, and these names opened. -/
structure Heard (X : Encoding) (order : List MemberId) (opened : List String) (t : Take) :
    Prop where
  once : order.Nodup
  stems : ∀ id, id ∈ order ↔ ((t.stems.getD ∅)[id]?).isSome
  used : t.namesUsed = partNames X t.roster order
  opened : opened = (partNames X t.roster order).map (objectName t.base)

/-- What work on a take leaves: the take with perhaps more musicians heard, or an error behind
the last name opened. -/
structure Goes (X : Encoding) (opened : List String) (t : Take) (s : Sink) {α : Type}
    (r : Sink × Take × Except String α) : Prop where
  base : r.2.1.base = t.base
  roster : r.2.1.roster = t.roster
  stems : r.2.1.stems.isSome = t.stems.isSome
  names : ∃ more, OpensOnly s r.1 more ∧ ((∃ order, Heard X order (opened ++ more) r.2.1) ∨
    (∃ e, r.2.2 = .error e) ∧ ∃ order, order.Nodup ∧
      opened ++ more = (partNames X t.roster order).map (objectName t.base))

namespace Goes
variable {α β : Type} {opened : List String} {t t' : Take} {s s' : Sink}

theorem same (h : Heard X order opened t) (a : Except String α) : Goes X opened t s (s, t, a) :=
  ⟨rfl, rfl, rfl, [], OpensOnly.refl s, Or.inl ⟨order, by rwa [List.append_nil]⟩⟩

theorem setStem (h : Heard X order opened t) {id : MemberId} (hin : id ∈ order)
    (hon : t.stems.isSome) {track : Track} (hs : OpensOnly s s' []) (a : Except String α) :
    Goes X opened t s (s', t.setStem id track, a) := by
  refine ⟨rfl, rfl, ?_, [], hs, Or.inl ⟨order, h.once, fun other => ?_, h.used, ?_⟩⟩
  · exact Option.isSome_map
  · rw [Take.getElem?_setStem hon]
    split_ifs with hid
    · exact ⟨fun _ => rfl, fun _ => hid ▸ hin⟩
    · exact h.stems other
  · rw [List.append_nil]
    exact h.opened

theorem trans {a : α} (h : Goes X opened t s (s', t', .ok a))
    {r : Sink × Take × Except String β}
    (hrest : ∀ order opened', Heard X order opened' t' → Goes X opened' t' s' r) :
    Goes X opened t s r := by
  obtain ⟨hbase, hroster, hstems, more, hopens, hheard | ⟨⟨e, herror⟩, -⟩⟩ := h
  · obtain ⟨order, hheard⟩ := hheard
    obtain ⟨hbase', hroster', hstems', more', hopens', hnames⟩ := hrest order _ hheard
    refine ⟨hbase'.trans hbase, hroster'.trans hroster, hstems'.trans hstems, more ++ more',
      hopens.trans hopens', ?_⟩
    rw [← List.append_assoc]
    rw [show t'.base = t.base from hbase, show t'.roster = t.roster from hroster] at hnames
    exact hnames
  · cases herror

theorem fails {e : String} (h : Goes X opened t s (s', t', (.error e : Except String α))) :
    Goes X opened t s (s', t', (.error e : Except String β)) :=
  ⟨h.base, h.roster, h.stems, h.names.imp fun _ hmore =>
    ⟨hmore.1, hmore.2.imp_right fun hnone => ⟨⟨e, rfl⟩, hnone.2⟩⟩⟩

theorem once_more (h : Heard X order opened t) {id : MemberId}
    (hnew : (t.stems.getD ∅)[id]? = none) : (order ++ [id]).Nodup := by
  have hout : id ∉ order := fun hin => by
    have hsome := (h.stems id).mp hin
    rw [hnew] at hsome
    exact Bool.false_ne_true hsome
  refine List.nodup_append'.mpr ⟨h.once, List.nodup_singleton _, ?_⟩
  exact List.disjoint_singleton.mpr hout

theorem opened_more (h : Heard X order opened t) (id : MemberId) :
    opened ++ [objectName t.base (stemName X t.roster t.namesUsed id)] =
      (partNames X t.roster (order ++ [id])).map (objectName t.base) := by
  rw [partNames_append, List.map_append, h.opened, h.used]
  rfl

theorem getElem?_setStem_named (hon : t.stems.isSome) (namesUsed : List String) (id other : MemberId)
    (track : Track) : (({ t with namesUsed }.setStem id track).stems.getD ∅)[other]? =
      if id = other then some track else (t.stems.getD ∅)[other]? :=
  Take.getElem?_setStem (t := { t with namesUsed }) hon

theorem openStem (h : Heard X order opened t) (hon : t.stems.isSome) (s : Sink) {id : MemberId}
    (hnew : (t.stems.getD ∅)[id]? = none) : Goes X opened t s (t.openStem X s id) := by
  have hopens := OpensOrFails.openStemTrack X t s
    (objectName t.base (stemName X t.roster t.namesUsed id))
  unfold Take.openStem
  simp only
  rcases hresult : t.openStemTrack X s
    (objectName t.base (stemName X t.roster t.namesUsed id)) with ⟨s', e | track⟩
  · rw [hresult] at hopens
    rcases hopens with hopens | ⟨hopens, -⟩
    · exact ⟨rfl, rfl, rfl, _, hopens, Or.inr ⟨⟨e, rfl⟩, order ++ [id], once_more h hnew,
        opened_more h id⟩⟩
    · refine ⟨rfl, rfl, rfl, [], hopens, Or.inl ⟨order, ?_⟩⟩
      rwa [List.append_nil]
  · rw [hresult] at hopens
    rcases hopens with hopens | ⟨-, e, herror⟩
    · refine ⟨rfl, rfl, Option.isSome_map, _, hopens, Or.inl ⟨order ++ [id], once_more h hnew,
        fun other => ?_, ?_, opened_more h id⟩⟩
      · have hlookup := getElem?_setStem_named hon (t.namesUsed ++
          [stemName X t.roster t.namesUsed id]) id other track
        dsimp only
        rw [hlookup, List.mem_append, List.mem_singleton, h.stems other]
        split_ifs with hid
        · exact ⟨fun _ => rfl, fun _ => Or.inr hid.symm⟩
        · exact or_iff_left (Ne.symm hid)
      · show t.namesUsed ++ [_] = partNames X t.roster (order ++ [id])
        rw [partNames_append, h.used]
    · cases herror

theorem stemFor (h : Heard X order opened t) (hon : t.stems.isSome) (s : Sink) (id : MemberId) :
    Goes X opened t s (t.stemFor X s id) := by
  unfold Take.stemFor
  split
  · exact same h _
  · rename_i hnew
    exact openStem h hon s hnew

theorem stemFor_found {track : Track} (hon : t.stems.isSome) {id : MemberId}
    (h : t.stemFor X s id = (s', t', .ok track)) : ((t'.stems.getD ∅)[id]?).isSome := by
  unfold Take.stemFor at h
  split at h
  · rename_i hfound
    obtain rfl : t = t' := congrArg (fun r => r.2.1) h
    rw [hfound]
    rfl
  · unfold Take.openStem at h
    simp only at h
    split at h
    · exact absurd (congrArg (fun r => r.2.2) h) (by simp)
    · obtain rfl : _ = t' := congrArg (fun r => r.2.1) h
      dsimp only
      rw [getElem?_setStem_named hon, if_pos rfl]
      rfl

theorem feedStems (stems : List (Stem X)) (h : Heard X order opened t) (hon : t.stems.isSome)
    (s : Sink) : Goes X opened t s (Take.feedStems stems t s) := by
  induction stems generalizing t s order opened with
  | nil => exact same h _
  | cons stem rest ih =>
    have hstem := stemFor h hon s stem.id
    unfold Take.feedStems
    split
    · rename_i heq
      rw [heq] at hstem
      exact hstem.fails
    · rename_i s₁ t₁ track heq
      rw [heq] at hstem
      have hfound := stemFor_found hon heq
      refine hstem.trans fun order₁ opened₁ h₁ => ?_
      have hon₁ : t₁.stems.isSome := hstem.stems.trans hon
      have hpush := OpensOnly.push track s₁ .samples (mixInto [(stem.id, stem.pcm)]
        (fun _ => stem.fader) none (tickStereoSamples / channels))
      simp only
      split
      · rename_i heq'
        rw [heq'] at hpush
        exact setStem h₁ ((h₁.stems stem.id).mpr hfound) hon₁ hpush _
      · rename_i s₂ track₂ heq'
        rw [heq'] at hpush
        have hset : Goes X opened₁ t₁ s₁ (s₂, t₁.setStem stem.id track₂, (.ok () : Except String _)) :=
          setStem h₁ ((h₁.stems stem.id).mpr hfound) hon₁ hpush _
        exact hset.trans fun _ _ h₂ => ih h₂ (hset.stems.trans hon₁) _

theorem feedAbsent (absent : List (MemberId × Track)) (h : Heard X order opened t)
    (hon : t.stems.isSome) (hin : ∀ e ∈ absent, ((t.stems.getD ∅)[e.1]?).isSome) (s : Sink) :
    Goes X opened t s (Take.feedAbsent X absent t s) := by
  induction absent generalizing t s order opened with
  | nil => exact same h _
  | cons e rest ih =>
    obtain ⟨hhead, hrest⟩ := List.forall_mem_cons.mp hin
    have hpush := OpensOnly.push e.2 s .samples (silentTick X)
    have hid := (h.stems e.1).mpr hhead
    unfold Take.feedAbsent
    split
    · rename_i heq
      rw [heq] at hpush
      exact setStem h hid hon hpush _
    · rename_i s₁ track heq
      rw [heq] at hpush
      have hset : Goes X opened t s (s₁, t.setStem e.1 track, (.ok () : Except String _)) :=
        setStem h hid hon hpush _
      refine hset.trans fun _ _ h₁ => ih h₁ (hset.stems.trans hon) (fun e' he' => ?_) _
      rw [Take.getElem?_setStem hon]
      split_ifs
      · rfl
      · exact hrest e' he'

theorem feedAllStems (h : Heard X order opened t) (s : Sink) (payload : RecordPayload X) :
    Goes X opened t s (t.feedAllStems s payload) := by
  unfold Take.feedAllStems
  split
  · exact same h _
  · rename_i stems hstems
    have hon : t.stems.isSome := by
      rw [hstems]
      rfl
    have hfed := feedStems payload.stems h hon s
    split
    · rename_i heq
      rw [heq] at hfed
      exact hfed.fails
    · rename_i s₁ t₁ heq
      rw [heq] at hfed
      refine hfed.trans fun _ _ h₁ => feedAbsent _ h₁ (hfed.stems.trans hon) (fun e he => ?_) _
      have hfound := ExtTreeMap.mem_toList_iff_getElem?_eq_some.mp (List.mem_filter.mp he).1
      rw [hfound]
      rfl

theorem ticked (h : Heard X order opened t) (silence : Option SilentHead)
    (a : Except String α) :
    Goes X opened t s (s, { t with ticks := t.ticks + 1, silence }, a) := by
  refine ⟨rfl, rfl, rfl, [], OpensOnly.refl s, Or.inl ⟨order, h.once, h.stems, h.used, ?_⟩⟩
  rw [List.append_nil]
  exact h.opened

theorem feed (h : Heard X order opened t) (s : Sink) (payload : RecordPayload X) :
    Goes X opened t s (t.feed s payload) := by
  have hpush := OpensOnly.push t.mix s .samples payload.mix
  unfold Take.feed
  split
  · rename_i s₁ mix e heq
    rw [heq] at hpush
    refine ⟨rfl, rfl, rfl, [], hpush, Or.inl ⟨order, h.once, h.stems, h.used, ?_⟩⟩
    rw [List.append_nil]
    exact h.opened
  · rename_i s₁ mix heq
    rw [heq] at hpush
    have hmixed : Heard X order opened { t with mix } := ⟨h.once, h.stems, h.used, h.opened⟩
    have hmix : Goes X opened t s (s₁, { t with mix }, (.ok () : Except String Unit)) :=
      ⟨rfl, rfl, rfl, [], hpush, Or.inl ⟨order, by rwa [List.append_nil]⟩⟩
    refine hmix.trans fun _ _ h₁ => ?_
    have hfed := feedAllStems h₁ s₁ payload
    split
    · rename_i heq'
      rw [heq'] at hfed
      exact hfed.fails
    · rename_i s₂ t₂ heq'
      rw [heq'] at hfed
      refine hfed.trans fun _ _ h₂ => ?_
      simp only
      split
      · exact ticked h₂ _ _
      · exact ticked h₂ _ _

end Goes

def NamedInOrder (X : Encoding) (base : String) (opened : List String) : Prop :=
  ∃ roster order, order.Nodup ∧ opened = (partNames X roster order).map (objectName base)

theorem Heard.named {opened : List String} {t : Take} (h : Heard X order opened t) :
    NamedInOrder X t.base opened := ⟨t.roster, order, h.once, h.opened⟩

namespace Recorder

theorem tick_heard {r : Recorder} {t : Take} {opened : List String} (htake : r.take = some t)
    (h : Heard X order opened t) (payload : RecordPayload X) :
    ∃ more, OpensOnly r.sink (r.tick payload).sink more ∧
      NamedInOrder X t.base (opened ++ more) ∧
      ∀ t', (r.tick payload).take = some t' → t'.base = t.base ∧ t'.roster = t.roster ∧
        ∃ order, Heard X order (opened ++ more) t' := by
  have hfed := Goes.feed h r.sink payload
  unfold tick
  rw [htake]
  simp only
  split
  · rename_i s' t' heq
    rw [heq] at hfed
    obtain ⟨hbase, hroster, -, more, hopens, ⟨order', h'⟩ | ⟨⟨e, herror⟩, -⟩⟩ := hfed
    · refine ⟨more, hopens, ?_, fun t'' ht'' => ?_⟩
      · have hnamed := h'.named
        rwa [show t'.base = t.base from hbase] at hnamed
      · obtain rfl := Option.some.inj ht''
        exact ⟨hbase, hroster, order', h'⟩
    · cases herror
  · rename_i s' t' e heq
    rw [heq] at hfed
    obtain ⟨hbase, hroster, -, more, hopens, hnames⟩ := hfed
    refine ⟨more, hopens.then_none (OpensOnly.abortAll _ _), ?_,
      fun t'' ht'' => absurd ht'' (Option.some_ne_none t'').symm⟩
    rcases hnames with ⟨order', h'⟩ | ⟨-, order', hnodup, hnames⟩
    · have hnamed := h'.named
      rwa [show t'.base = t.base from hbase] at hnamed
    · exact ⟨t.roster, order', hnodup, hnames⟩

theorem start_heard {r : Recorder} (hidle : r.take = none) (unixSecs : UInt64)
    (stems : Option (List (MemberId × String))) {t : Take}
    (ht : (r.start X unixSecs stems).take = some t) :
    t.base = takeBase unixSecs ∧ ∃ opened,
      OpensOnly r.sink (r.start X unixSecs stems).sink opened ∧ Heard X [] opened t := by
  have hopened := OpensOrFails.openTrack X r.sink (objectName (takeBase unixSecs) "mix")
  unfold start at ht ⊢
  rw [hidle] at ht ⊢
  simp only at ht ⊢
  rcases hmix : Track.openTrack X r.sink (objectName (takeBase unixSecs) "mix") with
    ⟨s, e | mix⟩
  · rw [hmix] at ht
    exact absurd ht (Option.some_ne_none t).symm
  · rw [hmix] at ht hopened
    obtain rfl := Option.some.inj ht
    rcases hopened with hopened | ⟨-, e, herror⟩
    · refine ⟨rfl, _, hopened, List.nodup_nil, fun id => ?_, rfl, rfl⟩
      have hempty : ((stems.map fun _ => (∅ : ExtTreeMap MemberId Track)).getD ∅) = ∅ := by
        cases stems with
        | none => rfl
        | some roster => rfl
      show id ∈ [] ↔ (((stems.map fun _ => (∅ : ExtTreeMap MemberId Track)).getD ∅)[id]?).isSome
      rw [hempty, ExtTreeMap.getElem?_empty]
      exact ⟨fun hin => absurd hin List.not_mem_nil, fun hsome => absurd hsome Bool.false_ne_true⟩
    · cases herror

end Recorder

namespace Book

/-- The newest take opened what its musicians are named by, and every take did so in its time. -/
structure Listed (X : Encoding) (b : Book) : Prop where
  named : ∀ e ∈ b.takes, NamedInOrder X (takeBase e.1) e.2
  running : ∀ t, b.recorder.take = some t →
    ∃ e older order, b.takes = e :: older ∧ t.base = takeBase e.1 ∧ Heard X order e.2 t

theorem Listed.idle {b : Book} (h : Listed X b)
    {recorder : Recorder} (hsame : recorder = b.recorder) :
    Listed X { recorder, takes := note b.takes ((recorder.sink.log.drop
      b.recorder.sink.log.length).filterMap opened?) } := by
  have hnote : ∀ takes : List (UInt64 × List String), note takes [] = takes := by
    intro takes
    cases takes with
    | nil => rfl
    | cons e older => exact congrArg (· :: older) (Prod.ext rfl (List.append_nil _))
  rw [hsame, List.drop_length, List.filterMap_nil, hnote]
  exact h

theorem Listed.goes {b : Book} (h : Listed X b) {t : Take} (htake : b.recorder.take = some t)
    {recorder : Recorder}
    (hgoes : ∀ order opened, Heard X order opened t → ∃ more,
      OpensOnly b.recorder.sink recorder.sink more ∧ NamedInOrder X t.base (opened ++ more) ∧
        ∀ t', recorder.take = some t' → t'.base = t.base ∧ t'.roster = t.roster ∧
          ∃ order, Heard X order (opened ++ more) t') :
    Listed X { recorder, takes := note b.takes ((recorder.sink.log.drop
      b.recorder.sink.log.length).filterMap opened?) } := by
  obtain ⟨e, older, order, htakes, hbase, hheard⟩ := h.running t htake
  obtain ⟨more, hopens, hnamed, hnext⟩ := hgoes order e.2 hheard
  have hall := h.named
  rw [hopens.names_eq]
  rw [htakes] at hall ⊢
  refine ⟨fun e' he' => ?_, fun t' ht' => ?_⟩
  · rcases List.mem_cons.mp he' with rfl | he'
    · rw [hbase] at hnamed
      exact hnamed
    · exact hall e' (List.mem_cons_of_mem _ he')
  · obtain ⟨hbase', -, order', hheard'⟩ := hnext t' ht'
    exact ⟨(e.1, e.2 ++ more), older, order', rfl, hbase'.trans hbase, hheard'⟩

theorem Listed.start {b : Book} (h : Listed X b) (unixSecs : UInt64)
    (stems : Option (List (MemberId × String))) :
    Listed X (b.step (.start unixSecs stems : Command X)) := by
  unfold Book.step
  show Listed X { recorder := b.recorder.start X unixSecs stems, takes := if _ then _ else _ }
  split_ifs with hnew
  · rw [Bool.and_eq_true, Option.isNone_iff_eq_none, Option.isSome_iff_exists] at hnew
    obtain ⟨hnone, t, ht⟩ := hnew
    obtain ⟨hbase, opened, hopens, hheard⟩ := Recorder.start_heard hnone unixSecs stems ht
    rw [show b.recorder.step (.start unixSecs stems : Command X) =
      b.recorder.start X unixSecs stems from rfl, hopens.names_eq]
    refine ⟨fun e he => ?_, fun t' ht' => ?_⟩
    · rcases List.mem_cons.mp he with rfl | he
      · rw [← hbase]
        exact hheard.named
      · exact h.named e he
    · obtain rfl := Option.some.inj (ht.symm.trans ht')
      exact ⟨(unixSecs, opened), b.takes, [], rfl, hbase, hheard⟩
  · refine ⟨h.named, fun t ht => ?_⟩
    cases hrunning : b.recorder.take with
    | none =>
      rw [hrunning] at hnew
      exact absurd (Option.isSome_iff_exists.mpr ⟨t, ht⟩) hnew
    | some t' =>
      have hsame : b.recorder.start X unixSecs stems = b.recorder := by
        unfold Recorder.start
        rw [hrunning]
      rw [hsame] at ht
      exact h.running t ht

theorem Listed.step {b : Book} (h : Listed X b) (c : Command X) : Listed X (b.step c) := by
  cases c with
  | start unixSecs stems => exact h.start unixSecs stems
  | tick payload =>
    cases htake : b.recorder.take with
    | none =>
      have hsame : b.recorder.tick payload = b.recorder := by
        unfold Recorder.tick
        rw [htake]
      exact h.idle hsame
    | some t => exact h.goes htake fun _ _ hheard => Recorder.tick_heard htake hheard payload
  | stop =>
    cases htake : b.recorder.take with
    | none =>
      have hsame : b.recorder.stop X = b.recorder := by
        unfold Recorder.stop
        rw [htake]
      exact h.idle hsame
    | some t =>
      have hstopped : OpensOnly b.recorder.sink (b.recorder.stop X).sink [] ∧
          (b.recorder.stop X).take = none := by
        unfold Recorder.stop
        rw [htake]
        exact ⟨OpensOnly.finishAll X _ _, rfl⟩
      refine h.goes htake fun _ _ hheard => ⟨[], hstopped.1, ?_, fun t' ht' =>
        absurd (hstopped.2.symm.trans ht') (Option.some_ne_none t').symm⟩
      rw [List.append_nil]
      exact hheard.named

theorem listed_run (X : Encoding) (fails : ℕ → Option String) (uploads : Bool)
    (commands : List (Command X)) :
    Listed X (run step ⟨Recorder.onSink fails uploads, []⟩ commands) := by
  refine run_invariant (P := Listed X) (fun _ c h => h.step c) ?_ commands
  exact ⟨fun _ he => absurd he List.not_mem_nil,
    fun t ht => absurd ht (Option.some_ne_none t).symm⟩

end Book

/-- In a take, no two objects get one name exactly if nobody whose name is taken finds somebody
else going by that name with their number. The takes of every run are named so. -/
theorem take_names_distinct_iff (X : Encoding) :
    (∀ base roster order, order.Nodup →
      (((partNames X roster order).map (objectName base)).Nodup ↔
        NoneNumberedSo X roster order)) ∧
    ∀ (fails : ℕ → Option String) (uploads : Bool) (commands : List (Command X)),
      Book.Listed X (run Book.step ⟨Recorder.onSink fails uploads, []⟩ commands) := by
  refine ⟨fun base roster order hnodup => ?_, Book.listed_run X⟩
  rw [List.nodup_map_iff (objectName_injective base)]
  exact partNames_nodup_iff hnodup

theorem take_names_distinct_iff_three :
    ((partNames Recorder.mute [(1, "ana"), (2, "ben"), (3, "ana")] [1, 2, 3]).map
      (objectName "take")).Nodup ↔
    NoneNumberedSo Recorder.mute [(1, "ana"), (2, "ben"), (3, "ana")] [1, 2, 3] :=
  (take_names_distinct_iff Recorder.mute).1 "take" [(1, "ana"), (2, "ben"), (3, "ana")] [1, 2, 3]
    (by decide)

def anaTwice : List (Command Recorder.mute) :=
  [.start 0 (some [(1, "ana"), (2, "ana-3"), (3, "ana")]),
    .tick { mix := silentTick _
            stems := [1, 2, 3].map fun id => { id, fader := .unity, pcm := silentTick _ } }]

/-- Two stems go into one object. -/
theorem ana_overwritten :
    ¬∀ e ∈ (run Book.step ⟨Recorder.onSink (fun _ => none) false, []⟩ anaTwice).takes,
      e.2.Nodup := by
  decide +kernel

end JamStream.Recording
