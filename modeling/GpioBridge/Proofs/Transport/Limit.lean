import GpioBridge.Proofs.Transport.Delivery
import GpioBridge.Transport.Datagram

namespace GpioBridge

namespace Frame

-- What is read from these bytes is within the limit, and its message can be written.
def Bounded (bytes : List UInt8) : Prop :=
  ∀ m, decode bytes = .ok m → bytes.length ≤ maxLength ∧ ∃ frame, encode m = .ok frame

section Reading

variable {bytes : List UInt8} {m : Message}

theorem length_eq_size_of_decode (h : decode bytes = .ok m) : bytes.length = size m := by
  obtain ⟨-, rfl⟩ := decode_eq_ok.mp h
  exact length_frame m

theorem bounded_iff_length_le (h : decode bytes = .ok m) :
    Bounded bytes ↔ bytes.length ≤ maxLength := by
  refine ⟨fun hbounded => (hbounded m h).1, fun hle read hread => ⟨hle, bytes, ?_⟩⟩
  exact (decode_eq_ok_iff_encode hle).mp hread

-- Of longer bytes the message is too large to be written at all.
theorem unwritable_of_decode (h : decode bytes = .ok m) (hlong : maxLength < bytes.length) :
    ∃ detail, encode m = .error (.unwritable detail) := by
  rw [length_eq_size_of_decode h] at hlong
  exact ⟨_, if_neg (Nat.not_le.mpr hlong)⟩

end Reading

def drawl (letters : Nat) : String := String.ofList (List.replicate letters 'a')

theorem utf8ByteSize_drawl (letters : Nat) : (drawl letters).utf8ByteSize = letters := by
  induction letters with
  | zero => rfl
  | succ letters ih =>
    have hletter : (String.singleton 'a').utf8ByteSize = 1 := by decide
    rw [drawl] at ih
    rw [drawl, List.replicate_succ, String.ofList_cons, String.utf8ByteSize_append, ih, hletter,
      Nat.add_comm]

-- The frame of a farewell with so many letters.
def farewell (letters : Nat) : List UInt8 := version :: body (.exit 0 (drawl letters))

theorem length_farewell (letters : Nat) : (farewell letters).length = letters + 21 := by
  rw [farewell, length_frame, size, textSize, utf8ByteSize_drawl]
  omega

theorem decode_farewell {letters : Nat} (h : letters < 2 ^ 64) :
    decode (farewell letters) = .ok (.exit 0 (drawl letters)) := by
  refine decode_eq_ok.mpr ⟨?_, rfl⟩
  rwa [Fits, TextFits, utf8ByteSize_drawl]

end Frame

-- A datagram is cut to the limit before it is read.
theorem DatagramHost.encode_of_receive {host : DatagramHost} {socket : Nat} {m : Message}
    (h : (host.receive socket).1 = .ok (some m)) : ∃ frame, Frame.encode m = .ok frame := by
  unfold DatagramHost.receive at h
  split at h
  · cases h
  · next frame rest hqueue =>
    dsimp only at h
    split at h
    · next read hread =>
      cases h
      exact ⟨_, (Frame.decode_eq_ok_iff_encode (List.length_take_le _ _)).mp hread⟩
    · cases h

theorem LoopbackBus.Carry.encodes {frames : List (List UInt8)} {messages : List Message} {m : Message}
    (h : Carry frames messages) (hm : m ∈ messages) : ∃ frame, Frame.encode m = .ok frame := by
  induction h with
  | nil => cases hm
  | cons hfirst _ ih =>
    rcases List.mem_cons.mp hm with rfl | hm
    · exact ⟨_, hfirst⟩
    · exact ih hm

-- What waits at a port was written by whoever sent it.
theorem LoopbackBus.encode_of_receive {actions : List LoopbackBus.Action} {id : Nat} {m : Message}
    (h : ((record actions).2.receive id).1 = .ok (some m)) :
    ∃ frame, Frame.encode m = .ok frame := by
  have hkept := kept_record actions
  cases hport : (record actions).2.port? id with
  | none => simp [receive, hport] at h
  | some port =>
    obtain ⟨hmem, rfl⟩ := mem_of_port? hport
    obtain ⟨before, after, hsplit, hstays⟩ := hkept.attached hmem
    obtain ⟨same, hsame, hid, waiting, hcarry, -⟩ := hkept.delivered hsplit hstays
    obtain rfl := List.inj_on_of_nodup_map hkept.distinct hsame hmem hid
    rw [receive_of_carry hport hcarry] at h
    exact hcarry.encodes (List.mem_of_head? (Except.ok.inj h))

namespace Frame

-- Bytes that are read are bounded as the limit has it exactly if they are within it; then they are
-- what their message is written as, and else it cannot be written. Frames of any length are read.
-- What a socket or a bus hands over can always be written.
theorem bounded_iff_of_decode {bytes : List UInt8} {m : Message} (h : decode bytes = .ok m) :
    (Bounded bytes ↔ bytes.length ≤ maxLength) ∧
    (bytes.length ≤ maxLength → encode m = .ok bytes) ∧
    (maxLength < bytes.length → ∃ detail, encode m = .error (.unwritable detail)) ∧
    (∀ length, 21 ≤ length → length < 2 ^ 64 →
      ∃ frame read, frame.length = length ∧ decode frame = .ok read) ∧
    (∀ (host : DatagramHost) socket received,
      (host.receive socket).1 = .ok (some received) → ∃ frame, encode received = .ok frame) ∧
    ∀ actions id received, ((LoopbackBus.record actions).2.receive id).1 = .ok (some received) →
      ∃ frame, encode received = .ok frame := by
  refine ⟨bounded_iff_length_le h, fun hle => (decode_eq_ok_iff_encode hle).mp h,
    unwritable_of_decode h, fun length hmin hmax => ?_,
    fun host socket received => DatagramHost.encode_of_receive,
    fun actions id received => LoopbackBus.encode_of_receive⟩
  refine ⟨farewell (length - 21), _, ?_, decode_farewell (by omega)⟩
  rw [length_farewell]
  omega

-- One letter more than fits is read all the same, and nobody could have written it.
theorem bounded_iff_of_decode_letterTooMany :
    decode (farewell 65516) = .ok (.exit 0 (drawl 65516)) ∧
      (farewell 65516).length = maxLength + 1 ∧ ¬Bounded (farewell 65516) ∧
      ∃ detail, encode (.exit 0 (drawl 65516)) = .error (.unwritable detail) := by
  have hread := decode_farewell (show 65516 < 2 ^ 64 by decide)
  have hlength : (farewell 65516).length = maxLength + 1 := length_farewell 65516
  obtain ⟨hbounded, -, hunwritable, -⟩ := bounded_iff_of_decode hread
  refine ⟨hread, hlength, fun h => ?_, hunwritable (by omega)⟩
  have hle := hbounded.mp h
  omega

end Frame

end GpioBridge
