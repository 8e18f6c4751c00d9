import GpioBridge.Proofs.Wire.Reading

namespace GpioBridge.Frame

theorem length_text (s : String) : (text s).length = textSize s := by
  rw [text, List.length_append, length_littleEndian]
  rfl

theorem length_texts (list : List String) :
    (texts list).length = 8 + list.foldr (textSize · + ·) 0 := by
  have hcontents : (list.flatMap text).length = list.foldr (textSize · + ·) 0 := by
    induction list with
    | nil => rfl
    | cons s rest ih => rw [List.flatMap_cons, List.length_append, length_text, ih, List.foldr_cons]
  rw [texts, List.length_append, length_littleEndian, hcontents]

theorem length_frame (m : Message) : (version :: body m).length = size m := by
  cases m with
  | init uid lineCount label names =>
    simp only [body, fields, size, word32, word64, List.length_cons, List.length_append,
      length_littleEndian, length_text, length_texts]
    omega
  | getValueReply uid pin status value =>
    cases value <;> simp [body, fields, size, word32, word64, optional, length_littleEndian]
  | exit uid message =>
    simp only [body, fields, size, word32, word64, List.length_cons, List.length_append,
      length_littleEndian, length_text]
    omega
  | _ => simp [body, fields, size, word32, word64, apiVersion, length_littleEndian]

-- Every text of a list adds to its size, and so does every byte of a text.
theorem le_size_of_list (list : List String) :
    list.length ≤ list.foldr (textSize · + ·) 0 ∧
      ∀ s ∈ list, s.utf8ByteSize ≤ list.foldr (textSize · + ·) 0 := by
  induction list with
  | nil => exact ⟨Nat.le_refl 0, by simp⟩
  | cons first rest ih =>
    obtain ⟨hlength, hmem⟩ := ih
    simp only [List.length_cons, List.foldr_cons, List.mem_cons, textSize] at hlength hmem ⊢
    refine ⟨by omega, ?_⟩
    rintro s (rfl | hs)
    · omega
    · have hle := hmem s hs
      omega

-- No length comes near what a length word can say before the frame is too long.
theorem fits_of_size_le {m : Message} (h : size m ≤ maxLength) : Fits m := by
  unfold maxLength at h
  cases m with
  | init uid lineCount label names =>
    obtain ⟨hlength, hmem⟩ := le_size_of_list names
    simp only [size, textSize] at h hlength hmem
    refine ⟨?_, by omega, fun name hname => ?_⟩
    · unfold TextFits
      omega
    · have hle := hmem name hname
      unfold TextFits
      omega
  | exit uid message =>
    simp only [size, textSize] at h
    unfold Fits TextFits
    omega
  | _ => trivial

theorem encode_eq_ok {m : Message} {bytes : List UInt8} :
    encode m = .ok bytes ↔ size m ≤ maxLength ∧ bytes = version :: body m := by
  unfold encode
  split
  · next h => simp [h, eq_comm]
  · next h => simp [h]

-- What reading comes to.
inductive Decodes (bytes : List UInt8) : Except FrameFault Message → Prop where
  | read {m} (hfits : Fits m) (h : bytes = version :: body m) : Decodes bytes (.ok m)
  -- Another version byte stands before what is a frame otherwise.
  | foreign {found m} (hfound : found ≠ version) (hfits : Fits m) (h : bytes = found :: body m) :
      Decodes bytes (.error (.version version found))
  | unreadable {flaw : Flaw} (h : ∀ found m, Fits m → bytes ≠ found :: body m) :
      Decodes bytes (.error (.unreadable flaw.message))

theorem frame_eq_ok_nil {bytes : List UInt8} {found : UInt8} {m : Message} :
    Reader.frame bytes = .ok ((found, m), []) ↔ Fits m ∧ bytes = found :: body m := by
  rw [Reader.frame_eq_ok, List.append_nil]

theorem decodes_decode (bytes : List UInt8) : Decodes bytes (decode bytes) := by
  have hother : ∀ {result}, Reader.frame bytes = result →
      (∀ found m, result ≠ .ok ((found, m), [])) → ∀ found m, Fits m → bytes ≠ found :: body m := by
    rintro result rfl hne found m hfits h
    exact hne found m (frame_eq_ok_nil.mpr ⟨hfits, h⟩)
  unfold decode StateT.run
  cases hread : Reader.frame bytes with
  | error flaw => exact .unreadable (hother hread (by simp))
  | ok read =>
    obtain ⟨⟨found, m⟩, left⟩ := read
    cases left with
    | cons first rest => exact .unreadable (hother hread (by simp))
    | nil =>
      obtain ⟨hfits, h⟩ := frame_eq_ok_nil.mp hread
      by_cases hfound : found = version
      · rw [hfound] at h
        simpa [hfound] using Decodes.read hfits h
      · simpa [hfound] using Decodes.foreign hfound hfits h

-- Two frames that look alike are of one version and carry one message.
theorem frame_inj {found found' : UInt8} {m m' : Message} (hfits : Fits m) (hfits' : Fits m')
    (h : found :: body m = found' :: body m') : found = found' ∧ m = m' := by
  have hread : Reader.frame (found :: body m) = .ok ((found, m), []) :=
    frame_eq_ok_nil.mpr ⟨hfits, rfl⟩
  rw [h, frame_eq_ok_nil.mpr ⟨hfits', rfl⟩] at hread
  cases hread
  exact ⟨rfl, rfl⟩

theorem decode_eq_ok {bytes : List UInt8} {m : Message} :
    decode bytes = .ok m ↔ Fits m ∧ bytes = version :: body m := by
  have hdecodes := decodes_decode bytes
  generalize decode bytes = result at hdecodes ⊢
  constructor
  · rintro rfl
    cases hdecodes with
    | read hfits h => exact ⟨hfits, h⟩
  · rintro ⟨hfits, h⟩
    cases hdecodes with
    | read hfits' h' => rw [(frame_inj hfits hfits' (h.symm.trans h')).2]
    | foreign hfound hfits' h' =>
      exact absurd (frame_inj hfits' hfits (h'.symm.trans h)).1 hfound
    | unreadable hne => exact absurd h (hne version m hfits)

theorem decode_eq_version {bytes : List UInt8} {expected found : UInt8} :
    decode bytes = .error (.version expected found) ↔
      expected = version ∧ found ≠ version ∧ ∃ m, Fits m ∧ bytes = found :: body m := by
  have hdecodes := decodes_decode bytes
  generalize decode bytes = result at hdecodes ⊢
  constructor
  · rintro rfl
    cases hdecodes with
    | foreign hfound hfits h => exact ⟨rfl, hfound, _, hfits, h⟩
  · rintro ⟨rfl, hfound, m, hfits, h⟩
    cases hdecodes with
    | read hfits' h' => exact absurd (frame_inj hfits hfits' (h.symm.trans h')).1 hfound
    | foreign _ hfits' h' => rw [(frame_inj hfits hfits' (h.symm.trans h')).1]
    | unreadable hne => exact absurd h (hne found m hfits)

-- A message is written exactly if its size is within the limit; its frame has just this size and
-- gives the message back.
theorem encode_roundtrip (m : Message) :
    ((∃ frame, encode m = .ok frame) ↔ size m ≤ maxLength) ∧
    (∀ frame, encode m = .ok frame → frame.length = size m ∧ decode frame = .ok m) ∧
    (maxLength < size m → ∃ detail, encode m = .error (.unwritable detail)) := by
  refine ⟨⟨?_, fun h => ⟨_, encode_eq_ok.mpr ⟨h, rfl⟩⟩⟩, ?_, fun h => ?_⟩
  · rintro ⟨frame, hframe⟩
    exact (encode_eq_ok.mp hframe).1
  · intro frame hframe
    obtain ⟨hsize, rfl⟩ := encode_eq_ok.mp hframe
    exact ⟨length_frame m, decode_eq_ok.mpr ⟨fits_of_size_le hsize, rfl⟩⟩
  · exact ⟨_, if_neg (Nat.not_le.mpr h)⟩

theorem decode_eq_ok_iff_encode {bytes : List UInt8} (h : bytes.length ≤ maxLength) {m : Message} :
    decode bytes = .ok m ↔ encode m = .ok bytes := by
  rw [decode_eq_ok, encode_eq_ok]
  constructor
  · rintro ⟨-, rfl⟩
    rw [length_frame] at h
    exact ⟨h, rfl⟩
  · rintro ⟨hsize, hbytes⟩
    exact ⟨fits_of_size_le hsize, hbytes⟩

-- The bytes would be read if their first were the version's.
def ForeignFrame (found : UInt8) (bytes : List UInt8) : Prop :=
  found ≠ version ∧ ∃ rest m, bytes = found :: rest ∧ decode (version :: rest) = .ok m

theorem decode_eq_version_iff_foreign {bytes : List UInt8} {expected found : UInt8} :
    decode bytes = .error (.version expected found) ↔
      expected = version ∧ ForeignFrame found bytes := by
  rw [decode_eq_version, ForeignFrame]
  refine and_congr_right fun _ => and_congr_right fun _ => ⟨?_, ?_⟩
  · rintro ⟨m, hfits, rfl⟩
    exact ⟨body m, m, rfl, decode_eq_ok.mpr ⟨hfits, rfl⟩⟩
  · rintro ⟨rest, m, rfl, hread⟩
    obtain ⟨hfits, h⟩ := decode_eq_ok.mp hread
    exact ⟨m, hfits, by rw [(List.cons.inj h).2]⟩

-- Bytes within the limit are read as the one message they were written from. What only lacks the
-- version byte is told apart, and everything else is unreadable.
theorem decode_exact {bytes : List UInt8} (h : bytes.length ≤ maxLength) :
    (∀ m, decode bytes = .ok m ↔ encode m = .ok bytes) ∧
    (∀ other m, decode bytes = .ok m → decode other = .ok m → other = bytes) ∧
    (∀ expected found, decode bytes = .error (.version expected found) ↔
      expected = version ∧ ForeignFrame found bytes) ∧
    ((∃ detail, decode bytes = .error (.unreadable detail)) ↔
      (∀ m, encode m ≠ .ok bytes) ∧ ∀ found, ¬ForeignFrame found bytes) := by
  refine ⟨fun m => decode_eq_ok_iff_encode h, fun other m hread hread' => ?_,
    fun expected found => decode_eq_version_iff_foreign, ?_⟩
  · rw [(decode_eq_ok.mp hread).2, (decode_eq_ok.mp hread').2]
  · constructor
    · rintro ⟨detail, hdetail⟩
      refine ⟨fun m hm => ?_, fun found hforeign => ?_⟩
      · rw [(decode_eq_ok_iff_encode h).mpr hm] at hdetail
        cases hdetail
      · rw [decode_eq_version_iff_foreign.mpr ⟨rfl, hforeign⟩] at hdetail
        cases hdetail
    · rintro ⟨hnone, hhome⟩
      cases hresult : decode bytes with
      | ok m => exact absurd ((decode_eq_ok_iff_encode h).mp hresult) (hnone m)
      | error fault =>
        cases fault with
        | unreadable detail => exact ⟨detail, rfl⟩
        | version expected found =>
          exact absurd (decode_eq_version_iff_foreign.mp hresult).2 (hhome found)
        | unwritable detail =>
          have hdecodes := decodes_decode bytes
          rw [hresult] at hdecodes
          cases hdecodes

-- A farewell with a letter outside ASCII, from a sender of version two.
def laterVersion : List UInt8 :=
  [2, 12, 0, 0, 0, 0, 0, 0, 0, 0, 0, 0, 0, 4, 0, 0, 0, 0, 0, 0, 0, 0x61, 0x64, 0xC3, 0xA9]

theorem decode_exact_laterVersion :
    laterVersion.length ≤ maxLength ∧ ForeignFrame 2 laterVersion ∧
      decode laterVersion = .error (.version 1 2) := by
  have hlength : laterVersion.length ≤ maxLength := by decide
  have hread : decode (version :: laterVersion.tail) = .ok (.exit 0 "adé") :=
    decode_eq_ok.mpr ⟨fits_of_size_le (by decide), by decide⟩
  have hforeign : ForeignFrame 2 laterVersion := ⟨by decide, _, _, rfl, hread⟩
  exact ⟨hlength, hforeign, ((decode_exact hlength).2.2.1 1 2).mpr ⟨rfl, hforeign⟩⟩

end GpioBridge.Frame
