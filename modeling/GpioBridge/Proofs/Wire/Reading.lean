import GpioBridge.Wire.Frame
import Mathlib

namespace GpioBridge.Frame

theorem length_littleEndian (width n : Nat) : (littleEndian width n).length = width := by
  induction width generalizing n with
  | zero => rfl
  | succ width ih => rw [littleEndian, List.length_cons, ih]

theorem ofLittleEndian_lt (bytes : List UInt8) : ofLittleEndian bytes < 256 ^ bytes.length := by
  induction bytes with
  | nil => decide
  | cons byte rest ih =>
    have hbyte := byte.toNat_lt
    rw [ofLittleEndian, List.length_cons, Nat.pow_succ]
    omega

theorem ofLittleEndian_littleEndian {width n : Nat} (h : n < 256 ^ width) :
    ofLittleEndian (littleEndian width n) = n := by
  induction width generalizing n with
  | zero =>
    obtain rfl : n = 0 := by simpa using h
    rfl
  | succ width ih =>
    have hrest : n / 256 < 256 ^ width := by
      rw [Nat.pow_succ] at h
      exact Nat.div_lt_of_lt_mul (by omega)
    rw [littleEndian, ofLittleEndian, ih hrest, UInt8.toNat_ofNat']
    exact Nat.mod_add_div n 256

theorem littleEndian_ofLittleEndian (bytes : List UInt8) :
    littleEndian bytes.length (ofLittleEndian bytes) = bytes := by
  induction bytes with
  | nil => rfl
  | cons byte rest ih =>
    have hbyte := byte.toNat_lt
    have hlow : UInt8.ofNat (byte.toNat + 256 * ofLittleEndian rest) = byte := by
      rw [← UInt8.toNat_inj, UInt8.toNat_ofNat']
      omega
    have hhigh : (byte.toNat + 256 * ofLittleEndian rest) / 256 = ofLittleEndian rest := by omega
    rw [ofLittleEndian, List.length_cons, littleEndian, hlow, hhigh, ih]

-- The length of a text can be written.
def TextFits (s : String) : Prop := s.utf8ByteSize < 2 ^ 64

-- Every length in a message can be written.
def Fits : Message → Prop
  | .init _ _ label names => TextFits label ∧ names.length < 2 ^ 64 ∧ ∀ name ∈ names, TextFits name
  | .exit _ message => TextFits message
  | _ => True

namespace Reader

variable {α β : Type} {bytes rest : List UInt8}

theorem bind_eq_ok {reader : Reader α} {next : α → Reader β} {value : β} :
    (reader >>= next) bytes = .ok (value, rest) ↔
      ∃ first left, reader bytes = .ok (first, left) ∧ next first left = .ok (value, rest) := by
  change (reader bytes >>= fun read => next read.1 read.2) = .ok (value, rest) ↔ _
  cases h : reader bytes with
  | error flaw => simp [bind, Except.bind]
  | ok read =>
    obtain ⟨first, left⟩ := read
    simp [bind, Except.bind, and_assoc]

theorem bind_of_ok {reader : Reader α} {next : α → Reader β} {first : α} {left : List UInt8}
    {value : β} (h : reader bytes = .ok (first, left)) (hn : next first left = .ok (value, rest)) :
    (reader >>= next) bytes = .ok (value, rest) :=
  bind_eq_ok.mpr ⟨first, left, h, hn⟩

theorem pure_eq_ok {given value : α} :
    (pure given : Reader α) bytes = .ok (value, rest) ↔ given = value ∧ bytes = rest := by
  simp [pure, StateT.pure, Except.pure]

theorem throw_ne_ok {flaw : Flaw} {value : α} :
    (throw flaw : Reader α) bytes ≠ .ok (value, rest) :=
  nofun

theorem take_eq_ok {n : Nat} {flaw : Flaw} {front : List UInt8} :
    take n flaw bytes = .ok (front, rest) ↔ front.length = n ∧ bytes = front ++ rest := by
  simp only [take]
  split
  · next hlength =>
    simp only [Except.ok.injEq, Prod.mk.injEq]
    constructor
    · rintro ⟨rfl, rfl⟩
      exact ⟨hlength, (List.take_append_drop n bytes).symm⟩
    · rintro ⟨rfl, rfl⟩
      exact ⟨List.take_left, List.drop_left⟩
  · next hlength =>
    refine ⟨nofun, ?_⟩
    rintro ⟨rfl, rfl⟩
    exact absurd (by rw [List.take_left]) hlength

theorem number_eq_ok {width n : Nat} :
    number width bytes = .ok (n, rest) ↔
      n < 256 ^ width ∧ bytes = littleEndian width n ++ rest := by
  simp only [number, bind_eq_ok, pure_eq_ok, take_eq_ok]
  constructor
  · rintro ⟨front, left, ⟨rfl, rfl⟩, rfl, rfl⟩
    exact ⟨ofLittleEndian_lt front, by rw [littleEndian_ofLittleEndian]⟩
  · rintro ⟨hn, rfl⟩
    exact ⟨_, _, ⟨length_littleEndian width n, rfl⟩, ofLittleEndian_littleEndian hn, rfl⟩

theorem byte_eq_ok {value : UInt8} : byte bytes = .ok (value, rest) ↔ bytes = value :: rest := by
  simp only [byte, bind_eq_ok, pure_eq_ok, number_eq_ok]
  constructor
  · rintro ⟨n, left, ⟨-, rfl⟩, rfl, rfl⟩
    rfl
  · rintro rfl
    exact ⟨value.toNat, rest, ⟨value.toNat_lt, by simp [littleEndian]⟩, UInt8.ofNat_toNat, rfl⟩

theorem word32_eq_ok {value : UInt32} :
    word32 bytes = .ok (value, rest) ↔ bytes = Frame.word32 value ++ rest := by
  simp only [word32, bind_eq_ok, pure_eq_ok, number_eq_ok]
  constructor
  · rintro ⟨n, left, ⟨hn, rfl⟩, rfl, rfl⟩
    have hlt : n < 2 ^ 32 := hn
    rw [Frame.word32, UInt32.toNat_ofNat', Nat.mod_eq_of_lt hlt]
  · rintro rfl
    exact ⟨value.toNat, rest, ⟨value.toNat_lt, rfl⟩, UInt32.ofNat_toNat, rfl⟩

theorem word64_eq_ok {value : UInt64} :
    word64 bytes = .ok (value, rest) ↔ bytes = Frame.word64 value ++ rest := by
  simp only [word64, bind_eq_ok, pure_eq_ok, number_eq_ok]
  constructor
  · rintro ⟨n, left, ⟨hn, rfl⟩, rfl, rfl⟩
    have hlt : n < 2 ^ 64 := hn
    rw [Frame.word64, UInt64.toNat_ofNat', Nat.mod_eq_of_lt hlt]
  · rintro rfl
    exact ⟨value.toNat, rest, ⟨value.toNat_lt, rfl⟩, UInt64.ofNat_toNat, rfl⟩

theorem text_eq_ok {s : String} :
    text bytes = .ok (s, rest) ↔ TextFits s ∧ bytes = Frame.text s ++ rest := by
  simp only [text, bind_eq_ok, number_eq_ok, take_eq_ok]
  constructor
  · rintro ⟨n, left, ⟨hn, rfl⟩, contents, tail, ⟨rfl, rfl⟩, h⟩
    cases ht : Utf8.text contents with
    | error flaw =>
      rw [ht] at h
      exact absurd h throw_ne_ok
    | ok t =>
      rw [ht] at h
      obtain ⟨rfl, rfl⟩ := pure_eq_ok.mp h
      obtain rfl := Utf8.bytes_of_text ht
      have hlength : (Utf8.bytes t).length = t.utf8ByteSize := rfl
      exact ⟨hn, by rw [Frame.text, List.append_assoc, hlength]⟩
  · rintro ⟨hs, rfl⟩
    refine ⟨s.utf8ByteSize, _, ⟨hs, List.append_assoc _ _ _⟩, Utf8.bytes s, rest, ⟨rfl, rfl⟩, ?_⟩
    rw [Utf8.text_bytes]
    rfl

theorem textList_eq_ok {count : Nat} {list : List String} :
    textList count bytes = .ok (list, rest) ↔
      list.length = count ∧ (∀ s ∈ list, TextFits s) ∧
        bytes = list.flatMap Frame.text ++ rest := by
  induction count generalizing bytes rest list with
  | zero =>
    rw [textList, pure_eq_ok, List.length_eq_zero_iff]
    constructor
    · rintro ⟨rfl, rfl⟩
      exact ⟨rfl, by simp, rfl⟩
    · rintro ⟨rfl, -, rfl⟩
      exact ⟨rfl, rfl⟩
  | succ count ih =>
    simp only [textList, bind_eq_ok, pure_eq_ok, text_eq_ok, ih]
    constructor
    · rintro ⟨first, left, ⟨hfirst, rfl⟩, others, tail, ⟨rfl, hothers, rfl⟩, rfl, rfl⟩
      exact ⟨rfl, List.forall_mem_cons.mpr ⟨hfirst, hothers⟩, by simp⟩
    · rintro ⟨hlength, hlist, rfl⟩
      cases list with
      | nil => cases hlength
      | cons first others =>
        obtain ⟨hfirst, hothers⟩ := List.forall_mem_cons.mp hlist
        exact ⟨first, _, ⟨hfirst, by rw [List.flatMap_cons, List.append_assoc]⟩, others, rest,
          ⟨Nat.succ.inj hlength, hothers, rfl⟩, rfl, rfl⟩

theorem texts_eq_ok {list : List String} :
    texts bytes = .ok (list, rest) ↔
      (list.length < 2 ^ 64 ∧ ∀ s ∈ list, TextFits s) ∧ bytes = Frame.texts list ++ rest := by
  simp only [texts, bind_eq_ok, number_eq_ok, textList_eq_ok, Frame.texts]
  constructor
  · rintro ⟨n, left, ⟨hn, rfl⟩, rfl, hlist, rfl⟩
    exact ⟨⟨hn, hlist⟩, by rw [List.append_assoc]⟩
  · rintro ⟨⟨hn, hlist⟩, rfl⟩
    exact ⟨list.length, _, ⟨hn, by rw [List.append_assoc]⟩, rfl, hlist, rfl⟩

theorem optional_eq_ok {value : Option UInt32} :
    optional bytes = .ok (value, rest) ↔ bytes = Frame.optional value ++ rest := by
  simp only [optional, bind_eq_ok, byte_eq_ok]
  constructor
  · rintro ⟨tag, left, rfl, h⟩
    split at h
    · next htag =>
      obtain ⟨rfl, rfl⟩ := pure_eq_ok.mp h
      rw [htag]
      rfl
    split at h
    · next htag =>
      simp only [bind_eq_ok, word32_eq_ok, pure_eq_ok] at h
      obtain ⟨word, tail, rfl, rfl, rfl⟩ := h
      rw [htag]
      rfl
    · exact absurd h throw_ne_ok
  · rintro rfl
    cases value with
    | none => exact ⟨0, rest, rfl, pure_eq_ok.mpr ⟨rfl, rfl⟩⟩
    | some word =>
      refine ⟨1, Frame.word32 word ++ rest, rfl, ?_⟩
      exact bind_eq_ok.mpr ⟨word, rest, word32_eq_ok.mpr rfl, pure_eq_ok.mpr ⟨rfl, rfl⟩⟩

theorem apiVersion_eq_ok {value : ApiVersion} :
    apiVersion bytes = .ok (value, rest) ↔ bytes = Frame.apiVersion value ++ rest := by
  simp only [apiVersion, bind_eq_ok, byte_eq_ok, pure_eq_ok]
  constructor
  · rintro ⟨major, _, rfl, minor, _, rfl, patch, _, rfl, rfl, rfl⟩
    rfl
  · rintro rfl
    exact ⟨value.major, _, rfl, value.minor, _, rfl, value.patch, rest, rfl, rfl, rfl⟩

-- The number before the fields says what kind of message they are read as.
theorem fields_eq_ok {number : UInt32} {m : Message} :
    fields number bytes = .ok (m, rest) ↔
      variant m = number ∧ Fits m ∧ bytes = Frame.fields m ++ rest := by
  constructor
  · intro h
    unfold fields at h
    generalize hn : number.toNat = index at h
    split at h
    case h_14 => exact absurd h throw_ne_ok
    all_goals
      simp only [bind_eq_ok, pure_eq_ok, word64_eq_ok, word32_eq_ok, text_eq_ok, texts_eq_ok,
        apiVersion_eq_ok, optional_eq_ok] at h
    case h_1 =>
      obtain ⟨uid, _, rfl, count, _, rfl, label, _, ⟨hlabel, rfl⟩, names, _, ⟨hnames, rfl⟩, rfl,
        rfl⟩ := h
      exact ⟨UInt32.toNat_inj.mp hn.symm, ⟨hlabel, hnames⟩, by simp [Frame.fields]⟩
    case h_3 =>
      obtain ⟨uid, _, rfl, rfl, rfl⟩ := h
      exact ⟨UInt32.toNat_inj.mp hn.symm, trivial, rfl⟩
    case h_4 =>
      obtain ⟨uid, _, rfl, status, _, rfl, version, _, rfl, rfl, rfl⟩ := h
      exact ⟨UInt32.toNat_inj.mp hn.symm, trivial, by simp [Frame.fields]⟩
    case h_6 =>
      obtain ⟨uid, _, rfl, pin, _, rfl, status, _, rfl, value, _, rfl, rfl, rfl⟩ := h
      exact ⟨UInt32.toNat_inj.mp hn.symm, trivial, by simp [Frame.fields]⟩
    case h_13 =>
      obtain ⟨uid, _, rfl, message, _, ⟨hmessage, rfl⟩, rfl, rfl⟩ := h
      exact ⟨UInt32.toNat_inj.mp hn.symm, hmessage, by simp [Frame.fields]⟩
    case h_2 | h_5 =>
      obtain ⟨uid, _, rfl, word, _, rfl, rfl, rfl⟩ := h
      exact ⟨UInt32.toNat_inj.mp hn.symm, trivial, by simp [Frame.fields]⟩
    all_goals
      obtain ⟨uid, _, rfl, pin, _, rfl, word, _, rfl, rfl, rfl⟩ := h
      exact ⟨UInt32.toNat_inj.mp hn.symm, trivial, by simp [Frame.fields]⟩
  · rintro ⟨rfl, hfits, rfl⟩
    simp only [Frame.fields]
    cases m with
    | init uid lineCount label names =>
      simp only [List.append_assoc]
      exact bind_of_ok (word64_eq_ok.mpr rfl) (bind_of_ok (word32_eq_ok.mpr rfl)
        (bind_of_ok (text_eq_ok.mpr ⟨hfits.1, rfl⟩) (bind_of_ok (texts_eq_ok.mpr ⟨hfits.2, rfl⟩)
          (pure_eq_ok.mpr ⟨rfl, rfl⟩))))
    | deinit uid => exact bind_of_ok (word64_eq_ok.mpr rfl) (pure_eq_ok.mpr ⟨rfl, rfl⟩)
    | deinitAck uid status version =>
      simp only [List.append_assoc]
      exact bind_of_ok (word64_eq_ok.mpr rfl) (bind_of_ok (word32_eq_ok.mpr rfl)
        (bind_of_ok (apiVersion_eq_ok.mpr rfl) (pure_eq_ok.mpr ⟨rfl, rfl⟩)))
    | getValueReply uid pin status value =>
      simp only [List.append_assoc]
      exact bind_of_ok (word64_eq_ok.mpr rfl) (bind_of_ok (word32_eq_ok.mpr rfl)
        (bind_of_ok (word32_eq_ok.mpr rfl) (bind_of_ok (optional_eq_ok.mpr rfl)
          (pure_eq_ok.mpr ⟨rfl, rfl⟩))))
    | exit uid message =>
      simp only [List.append_assoc]
      exact bind_of_ok (word64_eq_ok.mpr rfl) (bind_of_ok (text_eq_ok.mpr ⟨hfits, rfl⟩)
        (pure_eq_ok.mpr ⟨rfl, rfl⟩))
    | initAck uid word | getValue uid word =>
      simp only [List.append_assoc]
      exact bind_of_ok (word64_eq_ok.mpr rfl) (bind_of_ok (word32_eq_ok.mpr rfl)
        (pure_eq_ok.mpr ⟨rfl, rfl⟩))
    | _ =>
      simp only [List.append_assoc]
      exact bind_of_ok (word64_eq_ok.mpr rfl) (bind_of_ok (word32_eq_ok.mpr rfl)
        (bind_of_ok (word32_eq_ok.mpr rfl) (pure_eq_ok.mpr ⟨rfl, rfl⟩)))

theorem message_eq_ok {m : Message} :
    message bytes = .ok (m, rest) ↔ Fits m ∧ bytes = body m ++ rest := by
  simp only [message, bind_eq_ok, word32_eq_ok, fields_eq_ok, body, List.append_assoc]
  constructor
  · rintro ⟨number, left, rfl, rfl, hfits, rfl⟩
    exact ⟨hfits, rfl⟩
  · rintro ⟨hfits, rfl⟩
    exact ⟨variant m, _, rfl, rfl, hfits, rfl⟩

-- A frame of any version is read alike.
theorem frame_eq_ok {found : UInt8} {m : Message} :
    frame bytes = .ok ((found, m), rest) ↔ Fits m ∧ bytes = found :: (body m ++ rest) := by
  simp only [frame, bind_eq_ok, pure_eq_ok, byte_eq_ok, message_eq_ok]
  constructor
  · rintro ⟨_, _, rfl, _, _, ⟨hfits, rfl⟩, heq, rfl⟩
    cases heq
    exact ⟨hfits, rfl⟩
  · rintro ⟨hfits, rfl⟩
    exact ⟨found, _, rfl, m, rest, ⟨hfits, rfl⟩, rfl, rfl⟩

end Reader

end GpioBridge.Frame
