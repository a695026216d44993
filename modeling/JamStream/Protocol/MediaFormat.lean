import JamStream.Protocol.Media
import JamStream.Protocol.WireFormat

/-! Media frames read back from what they are written as, and what a frame leaves of the bytes
it was read from: all but the reserved bits of its flags. -/

namespace JamStream.Protocol
open Foundations Codec Wire

namespace MediaFrame

/-- The bytes from one place to another; outside the buffer the program would stop. -/
def slice (buf : Bytes) (start stop : ℕ) : Option Bytes :=
  if start ≤ stop ∧ stop ≤ buf.length then some ((buf.take stop).drop start) else none

def decodeReads (buf : Bytes) : Option (Except Error MediaFrame) :=
  if buf.length < headerBytes then some (.error .malformed)
  else do
    let channel ← buf[0]?
    if channel ≠ channelMedia then some (.error .malformed)
    else do
      let seq ← slice buf 1 5
      let timestamp ← slice buf 5 13
      let flags ← buf[13]?
      let body ← slice buf headerBytes buf.length
      let frame (payload : Bytes) (redundant : Option Bytes) : MediaFrame :=
        { seq := UInt32.ofNat (leNat 4 seq)
          timestamp := UInt64.ofNat (leNat 8 timestamp)
          duration := .fromBits flags
          stereo := flags &&& flagStereo ≠ 0
          payload, redundant }
      if flags &&& flagRedundant ≠ 0 then
        if body.length < 2 then some (.error .malformed)
        else do
          let len ← slice body 0 2
          let rest ← slice body 2 body.length
          if rest.length < leNat 2 len then some (.error .malformed)
          else do
            let payload ← slice rest 0 (leNat 2 len)
            let redundant ← slice rest (leNat 2 len) rest.length
            some (.ok (frame payload (some redundant)))
      else some (.ok (frame body none))

/-- Whoever made the bytes may have set the bits of the flags that mean nothing. -/
def withoutReserved (buf : Bytes) : Bytes := buf.modify 13 (· &&& 0x0F)

theorem slice_eq {buf : Bytes} {start stop : ℕ} (hstart : start ≤ stop)
    (hstop : stop ≤ buf.length) : slice buf start stop = some ((buf.take stop).drop start) :=
  if_pos ⟨hstart, hstop⟩

theorem slice_rest {buf : Bytes} {start : ℕ} (hstart : start ≤ buf.length) :
    slice buf start buf.length = some (buf.drop start) := by
  rw [slice_eq hstart le_rfl, List.take_length]

theorem slice_first {buf : Bytes} {stop : ℕ} (hstop : stop ≤ buf.length) :
    slice buf 0 stop = some (buf.take stop) := slice_eq (Nat.zero_le _) hstop

theorem leNat_slice (k start : ℕ) (buf : Bytes) :
    leNat k ((buf.take (start + k)).drop start) = leNat k (buf.drop start) := by
  rw [leNat, leNat, List.drop_take, Nat.add_sub_cancel_left, List.take_take, Nat.min_self]

theorem leNat_take (k : ℕ) (buf : Bytes) : leNat k (buf.take k) = leNat k buf := by
  rw [leNat, leNat, List.take_take, Nat.min_self]

theorem decodeReads_eq (buf : Bytes) : decodeReads buf = some (decode buf) := by
  unfold decodeReads decode
  by_cases hshort : buf.length < headerBytes
  · rw [if_pos hshort, if_pos (.inl hshort)]
  have hlength : 14 ≤ buf.length := Nat.not_lt.mp hshort
  rw [if_neg hshort]
  have hhead : buf[0]? = some (buf.getD 0 0) := by
    rw [List.getD_eq_getElem?_getD, List.getElem?_eq_getElem (by omega), Option.getD_some]
  have hflags : buf[13]? = some (buf.getD 13 0) := by
    rw [List.getD_eq_getElem?_getD, List.getElem?_eq_getElem (by omega), Option.getD_some]
  have hchannel : buf.head? = some (buf.getD 0 0) := by
    rw [List.head?_eq_getElem?, hhead]
  simp only [hhead, hflags, Option.bind_eq_bind, Option.bind_some]
  by_cases hmedia : buf.getD 0 0 ≠ channelMedia
  · have hother : buf.head? ≠ some channelMedia := by
      rw [hchannel]
      exact fun h => hmedia (Option.some.inj h)
    rw [if_pos hmedia, if_pos (.inr hother)]
  have hnot : ¬(buf.length < headerBytes ∨ buf.head? ≠ some channelMedia) := by
    rintro (h | h)
    · exact hshort h
    · refine h ?_
      rw [hchannel, not_not.mp hmedia]
  rw [if_neg hmedia, if_neg hnot]
  have hseq : slice buf 1 5 = some ((buf.take 5).drop 1) := slice_eq (by decide) (by omega)
  have htime : slice buf 5 13 = some ((buf.take 13).drop 5) := slice_eq (by decide) (by omega)
  have hbody : slice buf headerBytes buf.length = some (buf.drop headerBytes) :=
    slice_rest hlength
  have hframe : ∀ payload redundant,
      ({ seq := UInt32.ofNat (leNat 4 ((buf.take 5).drop 1))
         timestamp := UInt64.ofNat (leNat 8 ((buf.take 13).drop 5))
         duration := .fromBits (buf.getD 13 0)
         stereo := buf.getD 13 0 &&& flagStereo ≠ 0
         payload, redundant } : MediaFrame) = withBody buf payload redundant := by
    intro payload redundant
    rw [withBody, leNat_slice 4 1, leNat_slice 8 5]
  simp only [hseq, htime, hbody, Option.bind_some, hframe]
  by_cases hplain : buf.getD 13 0 &&& flagRedundant = 0
  · rw [if_neg (not_not.mpr hplain), if_pos hplain]
  rw [if_pos hplain, if_neg hplain]
  by_cases hcut : (buf.drop headerBytes).length < 2
  · rw [if_pos hcut, if_pos hcut]
  rw [if_neg hcut, if_neg hcut, slice_first (Nat.not_lt.mp hcut), Option.bind_some,
    slice_rest (Nat.not_lt.mp hcut), Option.bind_some, leNat_take]
  by_cases hlong : ((buf.drop headerBytes).drop 2).length < leNat 2 (buf.drop headerBytes)
  · rw [if_pos hlong, if_pos hlong]
  rw [if_neg hlong, if_neg hlong, slice_first (Nat.not_lt.mp hlong), Option.bind_some,
    slice_rest (Nat.not_lt.mp hlong), Option.bind_some]

section flags

theorem flags_parts (duration : FrameDuration) (stereo redundant : Bool) :
    let bits := duration.toBits ||| (if stereo then flagStereo else 0) |||
      (if redundant then flagRedundant else 0)
    FrameDuration.fromBits bits = duration ∧ decide (bits &&& flagStereo ≠ 0) = stereo ∧
      decide (bits &&& flagRedundant = 0) = !redundant := by
  cases duration <;> cases stereo <;> cases redundant <;> decide

theorem flags_duration (f : MediaFrame) : FrameDuration.fromBits f.flags = f.duration :=
  (flags_parts f.duration f.stereo f.redundant.isSome).1

theorem flags_stereo (f : MediaFrame) : decide (f.flags &&& flagStereo ≠ 0) = f.stereo :=
  (flags_parts f.duration f.stereo f.redundant.isSome).2.1

theorem flags_redundant (f : MediaFrame) :
    decide (f.flags &&& flagRedundant = 0) = !f.redundant.isSome :=
  (flags_parts f.duration f.stereo f.redundant.isSome).2.2

theorem flags_again (b : UInt8) :
    (FrameDuration.fromBits b).toBits ||| (if decide (b &&& flagStereo ≠ 0) then flagStereo else 0)
      ||| (if decide (b &&& flagRedundant ≠ 0) then flagRedundant else 0) = b &&& 0x0F := by
  have hall : ∀ n < 256, (FrameDuration.fromBits (UInt8.ofNat n)).toBits |||
      (if decide (UInt8.ofNat n &&& flagStereo ≠ 0) then flagStereo else 0) |||
        (if decide (UInt8.ofNat n &&& flagRedundant ≠ 0) then flagRedundant else 0) =
          UInt8.ofNat n &&& 0x0F := by decide +kernel
  have hb := hall b.toNat b.toNat_lt
  rw [UInt8.ofNat_toNat] at hb
  exact hb

end flags

theorem encode_eq (f : MediaFrame) : ∃ header : Bytes, header.length = 12 ∧
    header = le 4 f.seq.toNat ++ u64Le f.timestamp ∧
      f.encode = channelMedia :: (header ++ f.flags :: f.redundant.elim f.payload
        fun red => le 2 f.payload.length ++ f.payload ++ red) := by
  refine ⟨_, ?_, rfl, ?_⟩
  · rw [List.length_append, length_le, length_u64Le]
  · unfold encode
    rcases f.redundant with _ | red
    · rfl
    · rfl

theorem decode_encode {f : MediaFrame} (hfits : f.redundant.isSome → f.payload.length < 2 ^ 16) :
    decode f.encode = .ok f := by
  obtain ⟨header, hlength, hheader, hencode⟩ := encode_eq f
  have hbytes : ∀ body : Bytes,
      let buf := channelMedia :: (header ++ f.flags :: body)
      14 ≤ buf.length ∧ buf.getD 13 0 = f.flags ∧ buf.drop headerBytes = body ∧
        ∀ payload redundant, withBody buf payload redundant =
          { f with payload := payload, redundant := redundant } := by
    intro body buf
    have hflags : buf.getD 13 0 = f.flags := by
      show (header ++ f.flags :: body).getD 12 0 = _
      rw [List.getD_append_right _ _ _ _ hlength.le, hlength]
      rfl
    refine ⟨?_, hflags, ?_, ?_⟩
    · show 14 ≤ (header ++ f.flags :: body).length + 1
      rw [List.length_append, List.length_cons, hlength]
      omega
    · show (header ++ f.flags :: body).drop 13 = body
      rw [show header ++ f.flags :: body = (header ++ [f.flags]) ++ body by simp]
      refine List.drop_left' ?_
      rw [List.length_append, hlength]
      rfl
    · intro payload redundant
      have hseq : leNat 4 (buf.drop 1) = f.seq.toNat := by
        show leNat 4 (header ++ f.flags :: body) = _
        rw [hheader, List.append_assoc]
        exact leNat_le f.seq.toNat_lt _
      have htime : leNat 8 (buf.drop 5) = f.timestamp.toNat := by
        show leNat 8 ((header ++ f.flags :: body).drop 4) = _
        rw [hheader, List.append_assoc, List.drop_left' (length_le 4 _)]
        exact leNat_le f.timestamp.toNat_lt _
      rw [withBody, hseq, htime, hflags, flags_duration, flags_stereo, UInt32.ofNat_toNat,
        UInt64.ofNat_toNat]
  rw [hencode]
  obtain ⟨hlong, hflags, hbody, hframe⟩ := hbytes (f.redundant.elim f.payload
    fun red => le 2 f.payload.length ++ f.payload ++ red)
  have hnot : ∀ body : Bytes, 14 ≤ (channelMedia :: body).length →
      ¬((channelMedia :: body).length < headerBytes ∨
        (channelMedia :: body).head? ≠ some channelMedia) := by
    rintro body hlong (h | h)
    · exact absurd hlong (Nat.not_le.mpr h)
    · exact h rfl
  have hredundant := flags_redundant f
  unfold decode
  rw [if_neg (hnot _ hlong)]
  simp only [hflags, hbody, hframe]
  rcases hred : f.redundant with _ | red
  · rw [hred, Option.isSome_none, Bool.not_false, decide_eq_true_eq] at hredundant
    rw [if_pos hredundant, Option.elim_none, ← hred]
  · rw [hred, Option.isSome_some, Bool.not_true, decide_eq_false_iff_not] at hredundant
    have hsmall : f.payload.length < 256 ^ 2 := hfits (by rw [hred]; rfl)
    have hlen : leNat 2 (le 2 f.payload.length ++ f.payload ++ red) = f.payload.length := by
      rw [List.append_assoc]
      exact leNat_le hsmall _
    have hrest : (le 2 f.payload.length ++ f.payload ++ red).drop 2 = f.payload ++ red := by
      rw [List.append_assoc, List.drop_left' (length_le 2 _)]
    have htwo : ¬(le 2 f.payload.length ++ f.payload ++ red).length < 2 := by
      rw [List.length_append, List.length_append, length_le]
      omega
    have henough : ¬(f.payload ++ red).length < f.payload.length := by
      rw [List.length_append]
      omega
    rw [if_neg hredundant]
    show (if (le 2 f.payload.length ++ f.payload ++ red).length < 2 then _ else _) = _
    rw [if_neg htwo, Option.elim_some, hlen, hrest, if_neg henough, List.take_left,
      List.drop_left, ← hred]

section again
variable {buf : Bytes}

theorem withoutReserved_eq (hlength : 14 ≤ buf.length) :
    withoutReserved buf = buf.take 13 ++ (buf.getD 13 0 &&& 0x0F) :: buf.drop 14 := by
  have hin : 13 < buf.length := hlength
  rw [withoutReserved, List.modify_eq_take_cons_drop hin, List.getD_eq_getElem _ _ hin]

theorem take_header (hlength : 14 ≤ buf.length) (hhead : buf.head? = some channelMedia) :
    buf.take 13 = channelMedia :: ((buf.drop 1).take 4 ++ (buf.drop 5).take 8) := by
  rcases buf with _ | ⟨tag, rest⟩
  · exact nomatch hhead
  · obtain rfl : tag = channelMedia := Option.some.inj hhead
    show channelMedia :: rest.take 12 = channelMedia :: (rest.take 4 ++ (rest.drop 4).take 8)
    rw [take_append_take_drop]

theorem encode_withBody (hlength : 14 ≤ buf.length) (hhead : buf.head? = some channelMedia)
    {payload : Bytes} {redundant : Option Bytes}
    (hredundant : redundant.isSome = decide (buf.getD 13 0 &&& flagRedundant ≠ 0)) :
    (withBody buf payload redundant).encode = buf.take 13 ++ (buf.getD 13 0 &&& 0x0F) ::
      redundant.elim payload fun red => le 2 payload.length ++ payload ++ red := by
  have hflags : (withBody buf payload redundant).flags = buf.getD 13 0 &&& 0x0F := by
    rw [← flags_again, ← hredundant]
    rfl
  have hseq : le 4 (withBody buf payload redundant).seq.toNat = (buf.drop 1).take 4 := by
    have hsmall : leNat 4 (buf.drop 1) < 2 ^ 32 := leNat_lt 4 _
    show le 4 (UInt32.ofNat _).toNat = _
    rw [UInt32.toNat_ofNat', Nat.mod_eq_of_lt hsmall, le_leNat (by rw [List.length_drop]; omega)]
  have htime : u64Le (withBody buf payload redundant).timestamp = (buf.drop 5).take 8 :=
    u64Le_ofNat (by rw [List.length_drop]; omega)
  obtain ⟨header, _, hheader, hencode⟩ := encode_eq (withBody buf payload redundant)
  rw [hencode, hheader, hflags, hseq, htime, take_header hlength hhead]
  rfl

end again

theorem encode_of_decode {buf : Bytes} {f : MediaFrame} (h : decode buf = .ok f) :
    f.encode = withoutReserved buf := by
  unfold decode at h
  simp only at h
  split_ifs at h with hbad hplain hcut hlong
  · obtain ⟨hlength, hhead⟩ := not_or.mp hbad
    obtain rfl := Except.ok.inj h
    rw [encode_withBody (Nat.not_lt.mp hlength) (not_not.mp hhead) (by simpa using hplain),
      withoutReserved_eq (Nat.not_lt.mp hlength)]
    rfl
  · obtain ⟨hlength, hhead⟩ := not_or.mp hbad
    obtain rfl := Except.ok.inj h
    have htaken : (((buf.drop headerBytes).drop 2).take (leNat 2 (buf.drop headerBytes))).length =
        leNat 2 (buf.drop headerBytes) := List.length_take_of_le (Nat.not_lt.mp hlong)
    rw [encode_withBody (Nat.not_lt.mp hlength) (not_not.mp hhead) (by simpa using hplain),
      withoutReserved_eq (Nat.not_lt.mp hlength), Option.elim_some, htaken,
      le_leNat (Nat.not_lt.mp hcut), List.append_assoc, List.take_append_drop,
      List.take_append_drop]
    rfl

/-- Frames are written one way and read without looking past the end, and of the bytes only
the reserved bits of the flags are lost. -/
theorem media_roundtrip :
    (∀ f : MediaFrame, (f.redundant.isSome → f.payload.length < 2 ^ 16) →
      decode f.encode = .ok f) ∧
    (∀ buf, decodeReads buf = some (decode buf)) ∧
    ∀ a b f, decode a = .ok f → decode b = .ok f → withoutReserved a = withoutReserved b := by
  refine ⟨fun f h => decode_encode h, decodeReads_eq, fun a b f ha hb => ?_⟩
  rw [← encode_of_decode ha, ← encode_of_decode hb]

/-- A frame with a copy of the one before it. -/
def paired : MediaFrame where
  seq := 9
  timestamp := 1080
  duration := .fromBits 1
  stereo := true
  payload := [1, 2, 3]
  redundant := some [4, 5]

theorem media_roundtrip_paired :
    decode paired.encode = .ok paired ∧ decode (paired.encode.modify 13 (· ||| 0x80)) = .ok paired ∧
    withoutReserved (paired.encode.modify 13 (· ||| 0x80)) = withoutReserved paired.encode := by
  have hreserved : decode (paired.encode.modify 13 (· ||| 0x80)) = .ok paired := by decide +kernel
  have hown := media_roundtrip.1 paired fun _ => by decide
  exact ⟨hown, hreserved, media_roundtrip.2.2 _ _ _ hreserved hown⟩

end MediaFrame
end JamStream.Protocol
