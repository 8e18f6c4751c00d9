import GpioBridge.Proofs.Wire.Codec

namespace GpioBridge.Frame

-- The bytes ended before all was read.
inductive Flaw.Short : Flaw → Prop where
  | word : Short .shortWord
  | text : Short .shortText

namespace Reader

variable {α β : Type} {bytes left : List UInt8}

-- The reader fails on whatever is the front of these bytes but not all of them.
def RunsShort (reader : Reader α) (used : List UInt8) : Prop :=
  ∀ cut, cut <+: used → cut ≠ used → ∃ flaw, flaw.Short ∧ reader cut = .error flaw

-- What the reader reads stands at the front of the bytes and is read alike whatever follows.
def Steady (reader : Reader α) : Prop :=
  ∀ bytes value rest, reader bytes = .ok (value, rest) →
    ∃ used, bytes = used ++ rest ∧ (∀ other, reader (used ++ other) = .ok (value, other)) ∧
      reader.RunsShort used

theorem steady_pure (value : α) : Steady (pure value) := by
  intro bytes value' rest h
  obtain ⟨rfl, rfl⟩ := pure_eq_ok.mp h
  refine ⟨[], rfl, fun other => pure_eq_ok.mpr ⟨rfl, rfl⟩, fun cut hcut hne => ?_⟩
  exact absurd (List.prefix_nil.mp hcut) hne

theorem steady_throw (flaw : Flaw) : Steady (throw flaw : Reader α) :=
  fun _ _ _ h => absurd h throw_ne_ok

theorem steady_take (n : Nat) {flaw : Flaw} (hflaw : flaw.Short) : Steady (take n flaw) := by
  intro bytes front rest h
  obtain ⟨hlength, rfl⟩ := take_eq_ok.mp h
  refine ⟨front, rfl, fun other => take_eq_ok.mpr ⟨hlength, rfl⟩, fun cut hcut hne => ?_⟩
  have hshort : cut.length < n := by
    have hle := hcut.length_le
    have hlt : cut.length ≠ front.length := fun heq => hne (hcut.eq_of_length heq)
    omega
  refine ⟨flaw, hflaw, ?_⟩
  have htake : (cut.take n).length ≠ n := by
    rw [List.length_take]
    omega
  simp only [take, if_neg htake]

theorem bind_of_read {reader : Reader α} {next : α → Reader β} {first : α}
    (h : reader bytes = .ok (first, left)) : (reader >>= next) bytes = next first left := by
  change (reader bytes >>= fun read => next read.1 read.2) = next first left
  rw [h]
  rfl

theorem bind_of_error {reader : Reader α} {next : α → Reader β} {flaw : Flaw}
    (h : reader bytes = .error flaw) : (reader >>= next) bytes = .error flaw := by
  change (reader bytes >>= fun read => next read.1 read.2) = .error flaw
  rw [h]
  rfl

-- What is cut off one reader after another is cut off the first of them, or the first reads all it
-- needs and the rest is cut off the second.
theorem Steady.bind {reader : Reader α} {next : α → Reader β} (h : reader.Steady)
    (hnext : ∀ value, (next value).Steady) : (reader >>= next).Steady := by
  intro bytes value rest hread
  obtain ⟨first, left, hfirst, hsecond⟩ := bind_eq_ok.mp hread
  obtain ⟨used, rfl, hused, hshort⟩ := h _ _ _ hfirst
  obtain ⟨used', rfl, hused', hshort'⟩ := hnext first _ _ _ hsecond
  refine ⟨used ++ used', (List.append_assoc ..).symm, fun other => ?_, fun cut hcut hne => ?_⟩
  · rw [List.append_assoc]
    exact bind_of_ok (hused _) (hused' other)
  · by_cases hwhole : used <+: cut
    · obtain ⟨cut', rfl⟩ := hwhole
      have hcut' : cut' <+: used' := (List.prefix_append_right_inj used).mp hcut
      obtain ⟨flaw, hflaw, hfails⟩ := hshort' cut' hcut' fun heq => hne (by rw [heq])
      exact ⟨flaw, hflaw, (bind_of_read (hused cut')).trans hfails⟩
    · have hpart : cut <+: used :=
        (List.prefix_or_prefix_of_prefix hcut (List.prefix_append used used')).resolve_right hwhole
      obtain ⟨flaw, hflaw, hfails⟩ := hshort cut hpart fun heq => hwhole (heq ▸ List.prefix_rfl)
      exact ⟨flaw, hflaw, bind_of_error hfails⟩

theorem steady_number (width : Nat) : Steady (number width) :=
  (steady_take width .word).bind fun _ => steady_pure _

theorem steady_byte : Steady byte :=
  (steady_number 1).bind fun _ => steady_pure _

theorem steady_word32 : Steady word32 :=
  (steady_number 4).bind fun _ => steady_pure _

theorem steady_word64 : Steady word64 :=
  (steady_number 8).bind fun _ => steady_pure _

theorem steady_text : Steady text := by
  refine (steady_number 8).bind fun length => (steady_take length .text).bind fun contents => ?_
  cases Utf8.text contents with
  | ok s => exact steady_pure s
  | error flaw => exact steady_throw (.notText flaw)

theorem steady_textList (count : Nat) : Steady (textList count) := by
  induction count with
  | zero => exact steady_pure []
  | succ count ih =>
    exact steady_text.bind fun _ => ih.bind fun _ => steady_pure _

theorem steady_texts : Steady texts :=
  (steady_number 8).bind steady_textList

theorem steady_optional : Steady optional := by
  refine steady_byte.bind fun tag => ?_
  by_cases hnone : tag = 0
  · simp only [if_pos hnone]
    exact steady_pure none
  by_cases hsome : tag = 1
  · simp only [if_neg hnone, if_pos hsome]
    exact steady_word32.bind fun _ => steady_pure _
  · simp only [if_neg hnone, if_neg hsome]
    exact steady_throw (.unknownTag tag)

theorem steady_apiVersion : Steady apiVersion :=
  steady_byte.bind fun _ => steady_byte.bind fun _ => steady_byte.bind fun _ => steady_pure _

-- Whichever kind of message the number says.
theorem steady_fields (number : UInt32) : Steady (fields number) := by
  unfold fields
  split
  case h_1 =>
    exact steady_word64.bind fun _ => steady_word32.bind fun _ => steady_text.bind fun _ =>
      steady_texts.bind fun _ => steady_pure _
  case h_3 => exact steady_word64.bind fun _ => steady_pure _
  case h_4 =>
    exact steady_word64.bind fun _ => steady_word32.bind fun _ => steady_apiVersion.bind fun _ =>
      steady_pure _
  case h_6 =>
    exact steady_word64.bind fun _ => steady_word32.bind fun _ => steady_word32.bind fun _ =>
      steady_optional.bind fun _ => steady_pure _
  case h_13 => exact steady_word64.bind fun _ => steady_text.bind fun _ => steady_pure _
  case h_14 => exact steady_throw _
  case h_2 | h_5 =>
    exact steady_word64.bind fun _ => steady_word32.bind fun _ => steady_pure _
  all_goals
    exact steady_word64.bind fun _ => steady_word32.bind fun _ => steady_word32.bind fun _ =>
      steady_pure _

theorem steady_frame : Steady frame :=
  steady_byte.bind fun _ => (steady_word32.bind steady_fields).bind fun _ => steady_pure _

end Reader

theorem decode_of_error {bytes : List UInt8} {flaw : Flaw} (h : Reader.frame bytes = .error flaw) :
    decode bytes = .error (.unreadable flaw.message) := by
  unfold decode StateT.run
  rw [h]

theorem decode_of_trailing {bytes rest : List UInt8} {read : UInt8 × Message} (hrest : rest ≠ [])
    (h : Reader.frame bytes = .ok (read, rest)) :
    decode bytes = .error (.unreadable Flaw.trailing.message) := by
  obtain ⟨first, others, rfl⟩ := List.exists_cons_of_ne_nil hrest
  unfold decode StateT.run
  rw [h]

-- A frame that lost bytes at its end is reported as too short wherever it was cut, and one that
-- gained some as having bytes left over. So of two frames none is a part of the other.
theorem decode_cut_or_padded {m : Message} {frame : List UInt8} (h : encode m = .ok frame) :
    (∀ cut, cut <+: frame → cut ≠ frame →
      decode cut = .error (.unreadable Flaw.shortWord.message) ∨
        decode cut = .error (.unreadable Flaw.shortText.message)) ∧
    (∀ extra, extra ≠ [] →
      decode (frame ++ extra) = .error (.unreadable Flaw.trailing.message)) ∧
    (∀ m' frame', encode m' = .ok frame' → frame' <+: frame → m' = m ∧ frame' = frame) := by
  obtain ⟨hsize, rfl⟩ := encode_eq_ok.mp h
  have hread : ∀ rest, Reader.frame (version :: body m ++ rest) = .ok ((version, m), rest) :=
    fun rest => Reader.frame_eq_ok.mpr ⟨fits_of_size_le hsize, rfl⟩
  have hcut : ∀ cut, cut <+: version :: body m → cut ≠ version :: body m →
      ∃ flaw : Flaw, flaw.Short ∧ decode cut = .error (.unreadable flaw.message) := by
    intro cut hpart hne
    obtain ⟨used, hused, -, hshort⟩ := Reader.steady_frame _ _ _ (hread [])
    obtain rfl : version :: body m = used := by simpa using hused
    obtain ⟨flaw, hflaw, hfails⟩ := hshort cut hpart hne
    exact ⟨flaw, hflaw, decode_of_error hfails⟩
  refine ⟨fun cut hpart hne => ?_, fun extra hextra => decode_of_trailing hextra (hread extra),
    fun m' frame' h' hpart => ?_⟩
  · obtain ⟨flaw, hflaw, hdecode⟩ := hcut cut hpart hne
    cases hflaw with
    | word => exact .inl hdecode
    | text => exact .inr hdecode
  · obtain ⟨hsize', rfl⟩ := encode_eq_ok.mp h'
    by_cases heq : version :: body m' = version :: body m
    · have hsame := frame_inj (fits_of_size_le hsize') (fits_of_size_le hsize) heq
      exact ⟨hsame.2, heq⟩
    · obtain ⟨flaw, -, hdecode⟩ := hcut _ hpart heq
      rw [decode_eq_ok.mpr ⟨fits_of_size_le hsize', rfl⟩] at hdecode
      cases hdecode

-- A farewell that is cut inside its last letter, and one that is a byte too long.
theorem decode_cut_or_padded_farewell :
    ∃ frame, encode (.exit 0 "adé") = .ok frame ∧ frame.length = 25 ∧
      (decode (frame.take 24) = .error (.unreadable "io error: unexpected end of file") ∨
        decode (frame.take 24) = .error (.unreadable "io error: ")) ∧
      decode (frame ++ [0]) =
        .error (.unreadable "Slice had bytes remaining after deserialization") := by
  have hsize : size (.exit 0 "adé") ≤ maxLength := by decide
  obtain ⟨frame, hframe⟩ : ∃ frame, encode (.exit 0 "adé") = .ok frame :=
    ⟨_, encode_eq_ok.mpr ⟨hsize, rfl⟩⟩
  have hlength : frame.length = 25 := by
    rw [(encode_eq_ok.mp hframe).2]
    exact length_frame (.exit 0 "adé")
  have hne : frame.take 24 ≠ frame := by
    intro heq
    have htake := congrArg List.length heq
    rw [List.length_take] at htake
    omega
  obtain ⟨hcut, hpadded, -⟩ := decode_cut_or_padded hframe
  exact ⟨frame, hframe, hlength, hcut _ (List.take_prefix 24 frame) hne, hpadded [0] (by decide)⟩

end GpioBridge.Frame
