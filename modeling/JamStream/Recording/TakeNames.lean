import JamStream.Recording.Closing

/-! Two takes share an object name exactly if they start in one minute. A name gives
the minute back, and every take has a mix, which is named by the minute alone. -/

namespace JamStream.Recording
open Protocol Engine Foundations Runs

def minute (unixSecs : UInt64) : ℕ := unixSecs.toNat / 60

section Digits

theorem padded_value (width n : ℕ) : Nat.ofDigitChars 10 (padded width n) 0 = n := by
  unfold padded List.leftpad
  rw [Nat.ofDigitChars_append, Nat.ofDigitChars_replicate_zero, Nat.mul_zero,
    Nat.ofDigitChars_ten_toDigits]

theorem padded_injective (width : ℕ) : Function.Injective (padded width) :=
  Function.LeftInverse.injective (padded_value width)

theorem dash_notMem_padded (width n : ℕ) : '-' ∉ padded width n := by
  intro h
  rcases List.mem_append.mp h with h | h
  · exact absurd (List.eq_of_mem_replicate h) (by decide)
  · exact absurd (Nat.isDigit_of_mem_toDigits (by decide) (by decide) h) (by decide)

theorem padded_length {n : ℕ} (h : n < 100) : (padded 2 n).length = 2 := by
  unfold padded
  rw [List.length_leftpad, max_eq_left]
  exact (Nat.length_toDigits_le_iff (by decide) (by decide)).mpr h

theorem append_cons_inj {α : Type*} {a : α} {p q r s : List α} (hp : a ∉ p) (hq : a ∉ q)
    (h : p ++ a :: r = q ++ a :: s) : p = q ∧ r = s := by
  induction p generalizing q with
  | nil =>
    cases q with
    | nil => exact ⟨rfl, List.tail_eq_of_cons_eq h⟩
    | cons c q => exact absurd (List.head_eq_of_cons_eq h ▸ List.mem_cons_self ..) hq
  | cons b p ih =>
    cases q with
    | nil => exact absurd (List.head_eq_of_cons_eq h ▸ List.mem_cons_self ..) hp
    | cons c q =>
      obtain ⟨hpq, hrs⟩ := ih (fun hin => hp (List.mem_cons_of_mem _ hin))
        (fun hin => hq (List.mem_cons_of_mem _ hin)) (List.tail_eq_of_cons_eq h)
      exact ⟨congrArg₂ List.cons (List.head_eq_of_cons_eq h) hpq, hrs⟩

end Digits

section Calendar

/-- How far the leap days counted so far have moved a day of an era within its four years. -/
theorem shift_bounds {doe t : ℤ} (h0 : 0 ≤ doe) (h1 : doe < 146097)
    (ht : t = doe % 1460 - doe / 1460 + doe / 36524 - doe / 146096) : -1460 ≤ t ∧ t < 1460 := by
  omega

theorem shift_century {doe t : ℤ} (h0 : 0 ≤ doe) (h1 : doe < 146097)
    (ht : t = doe % 1460 - doe / 1460 + doe / 36524 - doe / 146096)
    (hfour : t / 1460 = -1 ∨ t / 1460 = 0) :
    (doe / 1460 + t / 1460) / 25 = doe / 36524 - doe / 146096 := by
  have hcentury : doe / 36524 = 0 ∨ doe / 36524 = 1 ∨ doe / 36524 = 2 ∨ doe / 36524 = 3 ∨
      doe / 36524 = 4 := by omega
  rcases hcentury with h | h | h | h | h
  all_goals
    rcases hfour with h' | h'
    · rw [h, h']
      omega
    · rw [h, h']
      omega

theorem yoe_of_shift {doe yoe t : ℤ}
    (hyoe : yoe = (doe - doe / 1460 + doe / 36524 - doe / 146096) / 365)
    (ht : t = doe % 1460 - doe / 1460 + doe / 36524 - doe / 146096) :
    yoe = 4 * (doe / 1460) + t / 365 := by omega

theorem leap_of_shift {a t yoe : ℤ} (h : yoe = 4 * a + t / 365) :
    yoe / 4 = a + t / 1460 ∧ yoe / 100 = (a + t / 1460) / 25 := by omega

theorem doy_bounds {doe yoe doy : ℤ} (h0 : 0 ≤ doe) (h1 : doe < 146097)
    (hyoe : yoe = (doe - doe / 1460 + doe / 36524 - doe / 146096) / 365)
    (hdoy : doy = doe - (365 * yoe + yoe / 4 - yoe / 100)) : 0 ≤ doy ∧ doy ≤ 365 := by
  obtain ⟨t, ht⟩ : ∃ t, t = doe % 1460 - doe / 1460 + doe / 36524 - doe / 146096 := ⟨_, rfl⟩
  have hbounds := shift_bounds h0 h1 ht
  have hyear := yoe_of_shift hyoe ht
  obtain ⟨hfour, hhundred⟩ := leap_of_shift hyear
  rw [shift_century h0 h1 ht (by clear hdoy hyoe; omega)] at hhundred
  clear hyoe
  omega

theorem yoe_bounds {doe yoe : ℤ} (h0 : 0 ≤ doe) (h1 : doe < 146097)
    (hyoe : yoe = (doe - doe / 1460 + doe / 36524 - doe / 146096) / 365) :
    0 ≤ yoe ∧ yoe ≤ 399 := by omega

theorem civilFromDays_injective : Function.Injective civilFromDays := by
  intro a b h
  simp only [civilFromDays, Prod.mk.injEq] at h
  obtain ⟨hy, hm, hd⟩ := h
  have doe_bounds : ∀ n : ℤ, 0 ≤ n % 146097 ∧ n % 146097 < 146097 := by
    intro n
    omega
  generalize hza : a + 719468 = za at *
  generalize hzb : b + 719468 = zb at *
  obtain ⟨hda0, hda1⟩ := doe_bounds za
  obtain ⟨hdb0, hdb1⟩ := doe_bounds zb
  have hea := Int.mul_ediv_add_emod za 146097
  have heb := Int.mul_ediv_add_emod zb 146097
  generalize za % 146097 = doea at *
  generalize zb % 146097 = doeb at *
  generalize hya : (doea - doea / 1460 + doea / 36524 - doea / 146096) / 365 = yoea at *
  generalize hyb : (doeb - doeb / 1460 + doeb / 36524 - doeb / 146096) / 365 = yoeb at *
  have hyoea := yoe_bounds hda0 hda1 hya.symm
  have hyoeb := yoe_bounds hdb0 hdb1 hyb.symm
  generalize hqa : doea - (365 * yoea + yoea / 4 - yoea / 100) = doya at *
  generalize hqb : doeb - (365 * yoeb + yoeb / 4 - yoeb / 100) = doyb at *
  have hdoya := doy_bounds hda0 hda1 hya.symm hqa.symm
  have hdoyb := doy_bounds hdb0 hdb1 hyb.symm hqb.symm
  clear hya hyb
  generalize hma : (5 * doya + 2) / 153 = ma at *
  generalize hmb : (5 * doyb + 2) / 153 = mb at *
  have hmonth : ma = mb := by
    split_ifs at hm <;> omega
  subst hmonth
  have hday : doya = doyb := by omega
  subst hday
  have hera : yoea + za / 146097 * 400 = yoeb + zb / 146097 * 400 := by omega
  have hyear : yoea = yoeb := by omega
  subst hyear
  omega

end Calendar

theorem regroup {α : Type*} (c : α) (p y m d hh mm r : List α) :
    p ++ y ++ c :: m ++ c :: d ++ c :: hh ++ mm ++ c :: r =
      p ++ (y ++ c :: (m ++ c :: (d ++ c :: (hh ++ (mm ++ c :: r))))) := by
  simp only [List.append_assoc, List.cons_append]

theorem toList_objectName (base part : String) :
    (objectName base part).toList = base.toList ++ '-' :: (part ++ ".flac").toList := by
  unfold objectName
  rw [String.append_assoc, String.append_assoc, String.toList_append, String.toList_append]
  rfl

theorem toList_takeName (unixSecs : UInt64) (part : String) :
    (objectName (takeBase unixSecs) part).toList =
      "jamstream-".toList ++ (padded 4 (civilFromDays (unixSecs.toNat / 86400 : ℕ)).1.toNat ++
        '-' :: (padded 2 (civilFromDays (unixSecs.toNat / 86400 : ℕ)).2.1 ++
          '-' :: (padded 2 (civilFromDays (unixSecs.toNat / 86400 : ℕ)).2.2 ++
            '-' :: (padded 2 (unixSecs.toNat % 86400 / 3600) ++
              (padded 2 (unixSecs.toNat % 86400 % 3600 / 60) ++
                '-' :: (part ++ ".flac").toList))))) := by
  rw [toList_objectName]
  unfold takeBase
  generalize civilFromDays _ = date
  generalize unixSecs.toNat % 86400 = secs
  rw [String.toList_ofList]
  exact regroup '-' _ _ _ _ _ _ _
theorem civil_year_nonneg (days : ℕ) : 0 ≤ (civilFromDays days).1 := by
  simp only [civilFromDays]
  have hera : 0 ≤ ((days : ℤ) + 719468) / 146097 := by omega
  have hdoe : 0 ≤ ((days : ℤ) + 719468) % 146097 ∧ ((days : ℤ) + 719468) % 146097 < 146097 := by
    omega
  have hyoe := yoe_bounds hdoe.1 hdoe.2 rfl
  split_ifs <;> omega

theorem objectName_minute {a b : UInt64} {x y : String}
    (h : objectName (takeBase a) x = objectName (takeBase b) y) : minute a = minute b := by
  have hlist := congrArg String.toList h
  rw [toList_takeName, toList_takeName] at hlist
  have hyear := append_cons_inj (dash_notMem_padded _ _) (dash_notMem_padded _ _)
    (List.append_cancel_left hlist)
  have hmonth := append_cons_inj (dash_notMem_padded _ _) (dash_notMem_padded _ _) hyear.2
  have hday := append_cons_inj (dash_notMem_padded _ _) (dash_notMem_padded _ _) hmonth.2
  have hhour := List.append_inj hday.2 (by
    rw [padded_length (by omega), padded_length (by omega)])
  have hmin := List.append_inj hhour.2 (by
    rw [padded_length (by omega), padded_length (by omega)])
  have hdate : civilFromDays (a.toNat / 86400 : ℕ) = civilFromDays (b.toNat / 86400 : ℕ) := by
    have hy := padded_injective 4 hyear.1
    have ha := civil_year_nonneg (a.toNat / 86400)
    have hb := civil_year_nonneg (b.toNat / 86400)
    have hyears := (Int.toNat_of_nonneg ha).symm.trans ((congrArg _ hy).trans (Int.toNat_of_nonneg hb))
    exact Prod.ext hyears
      (Prod.ext (padded_injective 2 hmonth.1) (padded_injective 2 hday.1))
  have hdays := civilFromDays_injective hdate
  have hh := padded_injective 2 hhour.1
  have hm := padded_injective 2 hmin.1
  clear hlist hyear hmonth hday hhour hmin hdate h
  unfold minute
  omega

theorem takeBase_of_minute {a b : UInt64} (h : minute a = minute b) : takeBase a = takeBase b := by
  unfold minute at h
  have hdays : a.toNat / 86400 = b.toNat / 86400 := by omega
  have hhour : a.toNat % 86400 / 3600 = b.toNat % 86400 / 3600 := by omega
  have hmin : a.toNat % 86400 % 3600 / 60 = b.toNat % 86400 % 3600 / 60 := by omega
  unfold takeBase
  rw [hdays]
  generalize civilFromDays _ = date
  show String.ofList (_ ++ '-' :: padded 2 (a.toNat % 86400 / 3600) ++
    padded 2 (a.toNat % 86400 % 3600 / 60)) = _
  rw [hhour, hmin]

def opened? : SinkEvent × Option String → Option String
  | (.opening name, none) => some name
  | _ => none

def Opens (base : String) (s s' : Sink) : Prop :=
  ∃ more, s'.log = s.log ++ more ∧
    ∀ name ∈ more.filterMap opened?, ∃ part, name = objectName base part

variable {X : Encoding} {base : String}

namespace Opens

theorem refl (base : String) (s : Sink) : Opens base s s :=
  ⟨[], (List.append_nil _).symm, fun _ h => absurd h List.not_mem_nil⟩

theorem trans {s s' s'' : Sink} (h : Opens base s s') (h' : Opens base s' s'') :
    Opens base s s'' := by
  obtain ⟨more, hlog, hnames⟩ := h
  obtain ⟨more', hlog', hnames'⟩ := h'
  refine ⟨more ++ more', by rw [hlog', hlog, List.append_assoc], fun name hname => ?_⟩
  rw [List.filterMap_append, List.mem_append] at hname
  exact hname.elim (hnames name) (hnames' name)

theorem record {s : Sink} {event : SinkEvent} (err : Option String)
    (h : ∀ name, event = .opening name → ∃ part, name = objectName base part) :
    Opens base s (s.record event err) := by
  refine ⟨[(event, err)], rfl, fun name hname => ?_⟩
  obtain ⟨e, he, heq⟩ := List.mem_filterMap.mp hname
  obtain rfl := List.mem_singleton.mp he
  refine h name ?_
  unfold opened? at heq
  split at heq
  · rename_i hname'
    obtain rfl := Option.some.inj heq
    exact congrArg Prod.fst hname'
  · exact absurd heq (Option.some_ne_none _).symm

theorem put (s : Sink) (object : ℕ) (site : Site) (encoded : Except String Bytes) :
    Opens base s (s.put object site encoded).1 := by
  cases encoded with
  | error e => exact record _ fun _ h => SinkEvent.noConfusion h
  | ok chunk => exact record _ fun _ h => SinkEvent.noConfusion h

theorem putAny (s : Sink) (object : ℕ) (site : Site) (encoded : Except String Bytes) :
    Opens base s (s.putAny object site encoded).1 := by
  unfold Sink.putAny
  split
  · exact refl base s
  · exact put s object site encoded

theorem openTrack (X : Encoding) (s : Sink) (part : String) :
    Opens base s (Track.openTrack X s (objectName base part)).1 := by
  have hcall : Opens base s (s.call (.opening (objectName base part))).1 :=
    record _ fun name h => ⟨part, (SinkEvent.opening.inj h).symm⟩
  unfold Track.openTrack
  split
  · rename_i heq
    rwa [heq] at hcall
  · rename_i heq
    rw [heq] at hcall
    have hheader := hcall.trans (put _ s.log.length .header (FlacEncoder.header X))
    simp only
    split
    · rename_i heq
      rwa [heq] at hheader
    · rename_i heq
      rwa [heq] at hheader

theorem openWithHead (X : Encoding) (s : Sink) (part : String) (head : Bytes)
    (frames pending : ℕ) :
    Opens base s (Track.openWithHead X s (objectName base part) head frames pending).1 := by
  have hcall : Opens base s (s.call (.opening (objectName base part))).1 :=
    record _ fun name h => ⟨part, (SinkEvent.opening.inj h).symm⟩
  unfold Track.openWithHead
  split
  · rename_i heq
    rwa [heq] at hcall
  · rename_i heq
    rw [heq] at hcall
    have hheader := hcall.trans (put _ s.log.length .header (FlacEncoder.header X))
    simp only
    split
    · rename_i heq
      rwa [heq] at hheader
    · rename_i heq
      rw [heq] at hheader
      have hhead := hheader.trans (put _ s.log.length .head (.ok head))
      split
      · rename_i heq
        rwa [heq] at hhead
      · rename_i heq
        rwa [heq] at hhead

theorem push (t : Track) (s : Sink) (site : Site) (pcm : Stereo X.toAudio) :
    Opens base s (t.push s site pcm).1 := putAny s t.object site _

theorem finish (X : Encoding) (t : Track) (s : Sink) : Opens base s (t.finish X s).1 := by
  have htail : Opens base s _ := putAny s t.object .tail (t.enc.finish X)
  unfold Track.finish
  split
  · rename_i heq
    rwa [heq] at htail
  · rename_i heq
    rw [heq] at htail
    exact htail.trans (record _ fun _ h => SinkEvent.noConfusion h)

theorem abort (t : Track) (s : Sink) : Opens base s (t.abort s) :=
  record _ fun _ h => SinkEvent.noConfusion h

theorem backfill (X : Encoding) (n : ℕ) (s : Sink) (track : Track) :
    Opens base s (Take.backfill X n s track).1 := by
  induction n generalizing s track with
  | zero => exact refl base s
  | succ n ih =>
    have hpush : Opens base s _ := push track s .backfill (silentTick X)
    unfold Take.backfill
    split
    · rename_i heq
      rwa [heq] at hpush
    · rename_i heq
      rw [heq] at hpush
      exact hpush.trans (ih _ _)

theorem openStemTrack (X : Encoding) (t : Take) (s : Sink) (part : String) :
    Opens base s (t.openStemTrack X s (objectName base part)).1 := by
  unfold Take.openStemTrack
  split
  · exact openWithHead X s part _ _ _
  · have hopened : Opens base s _ := openTrack X s part
    split
    · rename_i heq
      rwa [heq] at hopened
    · rename_i heq
      rw [heq] at hopened
      exact hopened.trans (backfill X _ _ _)

end Opens

/-- Work on the stems opens what it needs, and leaves the rest of the take alone. -/
structure Keeps (t : Take) (s : Sink) {α : Type} (r : Sink × Take × α) : Prop where
  opens : Opens t.base s r.1
  base : r.2.1.base = t.base
  mix : r.2.1.mix = t.mix
  ticks : r.2.1.ticks = t.ticks

namespace Keeps
variable {α β : Type}

theorem refl (t : Take) (s : Sink) (a : α) : Keeps t s (s, t, a) := ⟨.refl _ s, rfl, rfl, rfl⟩

theorem trans {t : Take} {s : Sink} {r : Sink × Take × α} {r' : Sink × Take × β}
    (h : Keeps t s r) (h' : Keeps r.2.1 r.1 r') : Keeps t s r' :=
  ⟨h.opens.trans (h.base ▸ h'.opens), h'.base.trans h.base, h'.mix.trans h.mix,
    h'.ticks.trans h.ticks⟩

theorem stemFor (X : Encoding) (t : Take) (s : Sink) (id : MemberId) :
    Keeps t s (t.stemFor X s id) := by
  unfold Take.stemFor
  split
  · exact refl t s _
  · unfold Take.openStem
    have hopened : Opens t.base s _ :=
      Opens.openStemTrack X t s (stemName X t.roster t.namesUsed id)
    simp only
    split
    · rename_i heq
      rw [heq] at hopened
      exact ⟨hopened, rfl, rfl, rfl⟩
    · rename_i heq
      rw [heq] at hopened
      exact ⟨hopened, rfl, rfl, rfl⟩

theorem push (t : Take) (s : Sink) (id : MemberId) (track : Track) (pcm : Stereo X.toAudio) :
    Keeps t s ((track.push s .samples pcm).1, t.setStem id (track.push s .samples pcm).2.1,
      (track.push s .samples pcm).2.2) := ⟨.push track s .samples pcm, rfl, rfl, rfl⟩

theorem feedStems (stems : List (Stem X)) (t : Take) (s : Sink) :
    Keeps t s (Take.feedStems stems t s) := by
  induction stems generalizing t s with
  | nil => exact refl t s _
  | cons stem rest ih =>
    have hstem := stemFor X t s stem.id
    unfold Take.feedStems
    split
    · rename_i heq
      rw [heq] at hstem
      exact ⟨hstem.opens, hstem.base, hstem.mix, hstem.ticks⟩
    · rename_i s' t' track heq
      rw [heq] at hstem
      have hpushed := hstem.trans (push t' s' stem.id track (mixInto [(stem.id, stem.pcm)]
        (fun _ => stem.fader) none (tickStereoSamples / channels)))
      simp only
      split
      · rename_i heq'
        rwa [heq'] at hpushed
      · rename_i heq'
        rw [heq'] at hpushed
        exact hpushed.trans (ih _ _)

theorem feedAbsent (X : Encoding) (absent : List (MemberId × Track)) (t : Take) (s : Sink) :
    Keeps t s (Take.feedAbsent X absent t s) := by
  induction absent generalizing t s with
  | nil => exact refl t s _
  | cons e rest ih =>
    have hpushed := push t s e.1 e.2 (silentTick X)
    unfold Take.feedAbsent
    split
    · rename_i heq
      rwa [heq] at hpushed
    · rename_i heq
      rw [heq] at hpushed
      exact hpushed.trans (ih _ _)

theorem feedAllStems (t : Take) (s : Sink) (payload : RecordPayload X) :
    Keeps t s (t.feedAllStems s payload) := by
  unfold Take.feedAllStems
  split
  · exact refl t s _
  · have hfed := feedStems payload.stems t s
    split
    · rename_i heq
      rwa [heq] at hfed
    · rename_i heq
      rw [heq] at hfed
      exact hfed.trans (feedAbsent X _ _ _)

end Keeps

namespace Take

theorem feed_opens (t : Take) (s : Sink) (payload : RecordPayload X) :
    Opens t.base s (t.feed s payload).1 ∧ (t.feed s payload).2.1.base = t.base := by
  have hmix : Opens t.base s (t.mix.push s .samples payload.mix).1 := .push ..
  unfold feed
  split
  · rename_i heq
    rw [heq] at hmix
    exact ⟨hmix, rfl⟩
  · rename_i s' mix heq
    rw [heq] at hmix
    have hfed := Keeps.feedAllStems { t with mix } s' payload
    split
    · rename_i heq'
      rw [heq'] at hfed
      exact ⟨hmix.trans hfed.opens, hfed.base⟩
    · rename_i heq'
      rw [heq'] at hfed
      simp only
      split
      · exact ⟨hmix.trans hfed.opens, hfed.base⟩
      · exact ⟨hmix.trans hfed.opens, hfed.base⟩

theorem feed_ok {t t' : Take} {s s' : Sink} {payload : RecordPayload X}
    (h : t.feed s payload = (s', t', .ok ())) :
    t'.mix.enc = (t.mix.enc.push X payload.mix).1 ∧ t'.ticks = t.ticks + 1 := by
  have hpush : (t.mix.push s .samples payload.mix).2.1.enc = (t.mix.enc.push X payload.mix).1 := rfl
  unfold feed at h
  split at h
  · simp at h
  · rename_i s₁ mix heq
    rw [heq] at hpush
    have hfed := Keeps.feedAllStems { t with mix } s₁ payload
    split at h
    · simp at h
    · rename_i t₁ heq'
      rw [heq'] at hfed
      have hmix : t₁.mix.enc = (t.mix.enc.push X payload.mix).1 := by
        rw [show t₁.mix = mix from hfed.mix]
        exact hpush
      have hticks : t₁.ticks = t.ticks := hfed.ticks
      simp only at h
      split at h
      · obtain rfl : _ = t' := congrArg (fun r => r.2.1) h
        exact ⟨hmix, congrArg (· + 1) hticks⟩
      · obtain rfl : _ = t' := congrArg (fun r => r.2.1) h
        exact ⟨hmix, congrArg (· + 1) hticks⟩

end Take

namespace Recorder

theorem call_ok {s s' : Sink} {event : SinkEvent} (h : s.call event = (s', .ok ())) :
    s'.log = s.log ++ [(event, none)] := by
  unfold Sink.call at h
  cases hfails : s.fails s.log.length with
  | none =>
    rw [hfails] at h
    exact congrArg Sink.log (congrArg Prod.fst h).symm
  | some e =>
    rw [hfails] at h
    simp at h

theorem put_grows (s : Sink) (object : ℕ) (site : Site) (encoded : Except String Bytes) :
    ∃ e, (s.put object site encoded).1.log = s.log ++ [e] := by
  cases encoded with
  | error e => exact ⟨_, rfl⟩
  | ok chunk => exact ⟨_, rfl⟩

theorem openTrack_ok {s s' : Sink} {file : String} {track : Track}
    (h : Track.openTrack X s file = (s', .ok track)) :
    ∃ more, s'.log = s.log ++ (.opening file, none) :: more := by
  unfold Track.openTrack at h
  match hcall : s.call (.opening file) with
  | (s₁, .error e) =>
    rw [hcall] at h
    simp at h
  | (s₁, .ok ()) =>
    have hlog := call_ok hcall
    rw [hcall] at h
    simp only at h
    obtain ⟨e, he⟩ := put_grows s₁ s.log.length .header (FlacEncoder.header X)
    refine ⟨[e], ?_⟩
    have hs' : s' = (s₁.put s.log.length .header (FlacEncoder.header X)).1 := by
      split at h
      · simp at h
      · rename_i heq
        rw [heq]
        exact (congrArg Prod.fst h).symm
    rw [hs', he, hlog, List.append_assoc]
    rfl

theorem abortAll_opens (base : String) (tracks : List Track) (s : Sink) :
    Opens base s (tracks.foldl (fun s track => track.abort s) s) := by
  induction tracks generalizing s with
  | nil => exact .refl base s
  | cons track rest ih => exact (Opens.abort track s).trans (ih _)

theorem tick_opens {r : Recorder} {t : Take} (h : r.take = some t) (payload : RecordPayload X) :
    Opens t.base r.sink (r.tick payload).sink ∧
      ∀ t', (r.tick payload).take = some t' → t'.base = t.base := by
  have hfed := t.feed_opens r.sink payload
  unfold tick
  rw [h]
  simp only
  split
  · rename_i heq
    rw [heq] at hfed
    exact ⟨hfed.1, fun t' ht' => Option.some.inj ht' ▸ hfed.2⟩
  · rename_i heq
    rw [heq] at hfed
    exact ⟨hfed.1.trans (abortAll_opens _ _ _),
      fun t' ht' => absurd ht' (Option.some_ne_none t').symm⟩

theorem finishAll_opens (X : Encoding) (base : String) (tracks : List Track) (s : Sink) :
    Opens base s (finishAll X tracks s).1 := by
  induction tracks generalizing s with
  | nil => exact .refl base s
  | cons track rest ih => exact (Opens.finish X track s).trans (ih _)

theorem stop_opens (X : Encoding) (base : String) (r : Recorder) :
    Opens base r.sink (r.stop X).sink ∧ (r.stop X).take = none := by
  unfold stop
  split
  · rename_i h
    exact ⟨.refl base _, h⟩
  · exact ⟨finishAll_opens X base _ _, rfl⟩

theorem start_opens (X : Encoding) {r : Recorder} (h : r.take = none) (unixSecs : UInt64)
    (stems : Option (List (MemberId × String))) {t : Take}
    (ht : (r.start X unixSecs stems).take = some t) :
    Opens (takeBase unixSecs) r.sink (r.start X unixSecs stems).sink ∧
      t.base = takeBase unixSecs ∧
      ∃ more, (r.start X unixSecs stems).sink.log = r.sink.log ++
        (.opening (objectName (takeBase unixSecs) "mix"), none) :: more := by
  have hopened : Opens (takeBase unixSecs) r.sink _ := Opens.openTrack X r.sink "mix"
  unfold start at ht ⊢
  rw [h] at ht ⊢
  simp only at ht ⊢
  match hmix : Track.openTrack X r.sink (objectName (takeBase unixSecs) "mix") with
  | (s, .error e) =>
    rw [hmix] at ht
    exact absurd ht (Option.some_ne_none t).symm
  | (s, .ok mix) =>
    rw [hmix] at ht hopened
    exact ⟨hopened, congrArg Take.base (Option.some.inj ht).symm, openTrack_ok hmix⟩

end Recorder

/-- A recorder beside the takes it has started, the newest first: when each was started,
and the names of the objects it opened. -/
structure Book where
  recorder : Recorder
  takes : List (UInt64 × List String)

namespace Book

/-- Names that were opened go under the newest take, which an accepted start begins. -/
def note (takes : List (UInt64 × List String)) (names : List String) :
    List (UInt64 × List String) :=
  match takes with
  | [] => []
  | (unixSecs, opened) :: older => (unixSecs, opened ++ names) :: older

def step (b : Book) (c : Command X) : Book :=
  let recorder := b.recorder.step c
  let names := (recorder.sink.log.drop b.recorder.sink.log.length).filterMap opened?
  { recorder
    takes := match c with
      | .start unixSecs _ =>
        if b.recorder.take.isNone && recorder.take.isSome then (unixSecs, names) :: b.takes
        else b.takes
      | _ => note b.takes names }

def Named (e : UInt64 × List String) : Prop :=
  objectName (takeBase e.1) "mix" ∈ e.2 ∧
    ∀ name ∈ e.2, ∃ part, name = objectName (takeBase e.1) part

structure Kept (b : Book) : Prop where
  named : ∀ e ∈ b.takes, Named e
  /-- The take that is running is the newest. -/
  running : ∀ t, b.recorder.take = some t →
    ∃ e older, b.takes = e :: older ∧ t.base = takeBase e.1

theorem opened_names {s s' : Sink} (h : Opens base s s') :
    ∀ name ∈ (s'.log.drop s.log.length).filterMap opened?, ∃ part, name = objectName base part := by
  obtain ⟨more, hlog, hnames⟩ := h
  rw [hlog, List.drop_left]
  exact hnames

theorem named_note {older : List (UInt64 × List String)} {e : UInt64 × List String}
    (h : ∀ e' ∈ e :: older, Named e') {names : List String}
    (hnames : ∀ name ∈ names, ∃ part, name = objectName (takeBase e.1) part) :
    ∀ e' ∈ note (e :: older) names, Named e' := by
  intro e' he'
  rcases List.mem_cons.mp he' with rfl | he'
  · obtain ⟨hmix, hall⟩ := h e (List.mem_cons_self ..)
    refine ⟨List.mem_append_left _ hmix, fun name hname => ?_⟩
    exact (List.mem_append.mp hname).elim (hall name) (hnames name)
  · exact h e' (List.mem_cons_of_mem _ he')

/-- A tick or a stop that finds no take does nothing. -/
theorem Kept.idle {b : Book} (h : Kept b) :
    Kept { b with takes := note b.takes ((b.recorder.sink.log.drop
      b.recorder.sink.log.length).filterMap opened?) } := by
  have hnote : ∀ takes : List (UInt64 × List String), note takes [] = takes := by
    intro takes
    cases takes with
    | nil => rfl
    | cons e older => exact congrArg (· :: older) (Prod.ext rfl (List.append_nil _))
  rw [List.drop_length, List.filterMap_nil, hnote]
  exact h

theorem Kept.goes {b : Book} (h : Kept b) {t : Take} (htake : b.recorder.take = some t)
    {recorder : Recorder} (hopens : Opens t.base b.recorder.sink recorder.sink)
    (hbase : ∀ t', recorder.take = some t' → t'.base = t.base) :
    Kept { recorder, takes := note b.takes ((recorder.sink.log.drop
      b.recorder.sink.log.length).filterMap opened?) } := by
  obtain ⟨e, older, htakes, he⟩ := h.running t htake
  have hnamed := h.named
  rw [htakes] at hnamed ⊢
  refine ⟨named_note hnamed ?_, fun t' ht' => ⟨_, older, rfl, (hbase t' ht').trans he⟩⟩
  rw [← he]
  exact opened_names hopens

theorem Kept.start {b : Book} (h : Kept b) (unixSecs : UInt64)
    (stems : Option (List (MemberId × String))) :
    Kept (b.step (.start unixSecs stems : Command X)) := by
  unfold Book.step
  show Kept { recorder := b.recorder.start X unixSecs stems, takes := if _ then _ else _ }
  split_ifs with hnew
  · rw [Bool.and_eq_true, Option.isNone_iff_eq_none, Option.isSome_iff_exists] at hnew
    obtain ⟨hnone, t, ht⟩ := hnew
    obtain ⟨hopens, hbase, more, hlog⟩ := Recorder.start_opens X hnone unixSecs stems ht
    refine ⟨fun e he => ?_, fun t' ht' => ⟨_, b.takes, rfl, ?_⟩⟩
    · rcases List.mem_cons.mp he with rfl | he
      · refine ⟨?_, opened_names hopens⟩
        show _ ∈ ((b.recorder.start X unixSecs stems).sink.log.drop _).filterMap _
        rw [hlog, List.drop_left]
        exact List.mem_cons_self ..
      · exact h.named e he
    · obtain rfl := Option.some.inj (ht.symm.trans ht')
      exact hbase
  · refine ⟨h.named, fun t ht => ?_⟩
    cases hrunning : b.recorder.take with
    | none =>
      rw [hrunning] at hnew
      exact absurd (Option.isSome_iff_exists.mpr ⟨t, ht⟩) hnew
    | some t' =>
      have hsame : b.recorder.start X unixSecs stems = b.recorder := by
        unfold Recorder.start
        rw [hrunning]
      rw [hsame] at ht
      exact h.running t ht

theorem Kept.step {b : Book} (h : Kept b) (c : Command X) : Kept (b.step c) := by
  cases c with
  | start unixSecs stems => exact h.start unixSecs stems
  | tick payload =>
    cases htake : b.recorder.take with
    | none =>
      have hsame : b.recorder.tick payload = b.recorder := by
        unfold Recorder.tick
        rw [htake]
      unfold Book.step
      rw [show b.recorder.step (.tick payload) = b.recorder from hsame]
      exact h.idle
    | some t =>
      obtain ⟨hopens, hbase⟩ := Recorder.tick_opens htake payload
      exact h.goes htake hopens hbase
  | stop =>
    cases htake : b.recorder.take with
    | none =>
      have hsame : b.recorder.stop X = b.recorder := by
        unfold Recorder.stop
        rw [htake]
      unfold Book.step
      rw [show b.recorder.step (.stop : Command X) = b.recorder from hsame]
      exact h.idle
    | some t =>
      obtain ⟨hopens, hnone⟩ := Recorder.stop_opens X t.base b.recorder
      exact h.goes htake hopens fun t' ht' => absurd (hnone.symm.trans ht') (Option.some_ne_none t').symm

theorem kept_run (X : Encoding) (fails : ℕ → Option String) (uploads : Bool)
    (commands : List (Command X)) : Kept (run step ⟨Recorder.onSink fails uploads, []⟩ commands) :=
  run_invariant (P := Kept) (fun _ c h => h.step c)
    ⟨fun _ he => absurd he List.not_mem_nil, fun t ht => absurd ht (Option.some_ne_none t).symm⟩
    commands

theorem disjoint_iff {e e' : UInt64 × List String} (h : Named e) (h' : Named e') :
    List.Disjoint e.2 e'.2 ↔ minute e.1 ≠ minute e'.1 := by
  constructor
  · intro hdisjoint hminute
    refine hdisjoint h.1 ?_
    rw [takeBase_of_minute hminute]
    exact h'.1
  · intro hminute name hin hin'
    obtain ⟨part, hpart⟩ := h.2 name hin
    obtain ⟨part', hpart'⟩ := h'.2 name hin'
    exact hminute (objectName_minute (hpart.symm.trans hpart'))

/-- Of any two takes of a run, the objects have no name in common exactly if the takes
started in different minutes. -/
theorem takes_disjoint_iff (X : Encoding) (fails : ℕ → Option String) (uploads : Bool)
    (commands : List (Command X)) :
    (run step ⟨Recorder.onSink fails uploads, []⟩ commands).takes.Pairwise
      (fun e e' => List.Disjoint e.2 e'.2) ↔
    (run step ⟨Recorder.onSink fails uploads, []⟩ commands).takes.Pairwise
      (fun e e' => minute e.1 ≠ minute e'.1) := by
  have hkept := kept_run X fails uploads commands
  exact List.Pairwise.iff_of_mem fun he he' => disjoint_iff (hkept.named _ he) (hkept.named _ he')

/-- Started at the epoch, stopped, and started again half a minute later. -/
theorem takes_disjoint_iff_restart :
    ¬(run (step (X := Recorder.mute)) ⟨Recorder.onSink (fun _ => none) false, []⟩
      [.start 0 none, .stop, .start 30 none]).takes.Pairwise
        fun e e' => List.Disjoint e.2 e'.2 := by
  have htakes : (run (step (X := Recorder.mute)) ⟨Recorder.onSink (fun _ => none) false, []⟩
      [.start 0 none, .stop, .start 30 none]).takes =
        [(30, ["jamstream-1970-01-01-0000-mix.flac"]), (0, ["jamstream-1970-01-01-0000-mix.flac"])] := by
    decide +kernel
  rw [htakes]
  simp

end Book

end JamStream.Recording
