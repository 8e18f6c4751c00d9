import GpioBridge.Proofs.Wire.Codec
import GpioBridge.Transport.Datagram
import Mathlib.Data.List.Basic

namespace GpioBridge.Datagram

-- A network that is told what is to come of the offers made to it, and keeps a list of them.
structure Bench where
  outcomes : List Delivery
  offers : List (List UInt8 × SocketAddress) := []

def Bench.sendTo (frame : List UInt8) (peer : SocketAddress) (bench : Bench) : Delivery × Bench :=
  (bench.outcomes.headD .sent,
    { outcomes := bench.outcomes.tail, offers := bench.offers ++ [(frame, peer)] })

abbrev Course := SocketAddress × Delivery

def offersOf (frame : List UInt8) (courses : List Course) : List (List UInt8 × SocketAddress) :=
  courses.map fun course => (frame, course.1)

-- Nothing but refusals goes wrong.
def Clear (courses : List Course) : Prop := ∀ course ∈ courses, ∀ detail, course.2 ≠ .failed detail

-- Every peer is offered the frame once, and the report tells what came of it.
structure ReachesAll (frame : List UInt8) (courses : List Course)
    (result : Except TransportFault Unit) (offers : List (List UInt8 × SocketAddress)) : Prop where
  offered : offers.Perm (offersOf frame courses)
  heard : result = .ok () → ∃ course ∈ courses, course.2 = .sent
  nobody : result = .error .noSubscribers ↔ ∀ course ∈ courses, course.2 = .refused
  failed : ∀ detail, result = .error (.io detail) → ∃ course ∈ courses, course.2 = .failed detail

-- What is reported and what was offered, by the first failure there is.
inductive Sends (frame : List UInt8) (courses : List Course) :
    Except TransportFault Unit → List (List UInt8 × SocketAddress) → Prop where
  | stopped {before peer detail behind} (hclear : Clear before)
      (hcourses : courses = before ++ (peer, .failed detail) :: behind) :
      Sends frame courses (.error (.io detail)) (offersOf frame before ++ [(frame, peer)])
  | delivered (hclear : Clear courses) (hsent : ∃ course ∈ courses, course.2 = .sent) :
      Sends frame courses (.ok ()) (offersOf frame courses)
  | unheard (hrefused : ∀ course ∈ courses, course.2 = .refused) :
      Sends frame courses (.error .noSubscribers) (offersOf frame courses)

section Offer

variable {frame : List UInt8} {earlier courses : List Course} {peer : SocketAddress}
  {outcome : Delivery}

theorem Clear.concat (h : Clear earlier) (houtcome : ∀ detail, outcome ≠ .failed detail) :
    Clear (earlier ++ [(peer, outcome)]) := by
  intro course hcourse
  rcases List.mem_append.mp hcourse with hcourse | hcourse
  · exact h course hcourse
  · obtain rfl := List.mem_singleton.mp hcourse
    exact houtcome

-- All peers were offered the frame and none of them failed.
theorem sends_of_clear (h : Clear courses) :
    Sends frame courses
      (if courses.countP (·.2 == .sent) = 0 then .error .noSubscribers else .ok ())
      (offersOf frame courses) := by
  by_cases hnone : courses.countP (·.2 == .sent) = 0
  · rw [if_pos hnone]
    refine .unheard fun course hcourse => ?_
    have hunsent := List.countP_eq_zero.mp hnone course hcourse
    cases houtcome : course.2 with
    | sent => simp [houtcome] at hunsent
    | refused => rfl
    | failed detail => exact absurd houtcome (h course hcourse detail)
  · rw [if_neg hnone]
    obtain ⟨course, hcourse, hsent⟩ := List.countP_pos_iff.mp (Nat.pos_of_ne_zero hnone)
    exact .delivered h ⟨course, hcourse, by simpa using hsent⟩

-- The induction is on the peers still to come; those earlier were offered the frame and none
-- failed.
theorem sends_offer (frame : List UInt8) (courses : List Course) (h : Clear earlier) :
    let run := offer (Bench.sendTo frame) (courses.map Prod.fst)
      (earlier.countP (·.2 == .sent)) ⟨courses.map Prod.snd, offersOf frame earlier⟩
    Sends frame (earlier ++ courses) run.1 run.2.offers := by
  induction courses generalizing earlier with
  | nil =>
    rw [List.append_nil]
    exact sends_of_clear h
  | cons course rest ih =>
    obtain ⟨peer, outcome⟩ := course
    have hoffers : offersOf frame earlier ++ [(frame, peer)] =
        offersOf frame (earlier ++ [(peer, outcome)]) := by simp [offersOf]
    cases outcome with
    | failed detail => exact .stopped h rfl
    | sent =>
      have hclear : Clear (earlier ++ [(peer, .sent)]) := h.concat nofun
      have hrest := ih hclear
      simpa [offer, Bench.sendTo, hoffers] using hrest
    | refused =>
      have hclear : Clear (earlier ++ [(peer, .refused)]) := h.concat nofun
      have hrest := ih hclear
      simpa [offer, Bench.sendTo, hoffers] using hrest

-- No failing peer has another peer behind it.
def FailsLast (courses : List Course) : Prop :=
  ∀ before peer detail behind, courses = before ++ (peer, .failed detail) :: behind → behind = []

theorem Clear.failsLast (h : Clear courses) : FailsLast courses := by
  rintro before peer detail behind rfl
  exact absurd rfl (h (peer, .failed detail) (by simp) detail)

theorem Clear.failsLast_concat (h : Clear earlier) : FailsLast (earlier ++ [(peer, outcome)]) := by
  intro before other detail behind hcourses
  rcases List.eq_nil_or_concat' behind with rfl | ⟨more, last, rfl⟩
  · rfl
  · rw [← List.cons_append, ← List.append_assoc] at hcourses
    obtain ⟨rfl, -⟩ := List.append_inj' hcourses rfl
    exact absurd rfl (h (other, .failed detail) (by simp) detail)

theorem reachesAll_iff_of_sends {result : Except TransportFault Unit}
    {offers : List (List UInt8 × SocketAddress)} (h : Sends frame courses result offers) :
    ReachesAll frame courses result offers ↔ FailsLast courses := by
  cases h with
  | @stopped before peer detail behind hclear hcourses =>
    subst hcourses
    constructor
    · intro hall
      have hlength := hall.offered.length_eq
      simp only [offersOf, List.length_append, List.length_map, List.length_cons,
        List.length_nil] at hlength
      obtain rfl := List.eq_nil_of_length_eq_zero (show behind.length = 0 by omega)
      exact hclear.failsLast_concat
    · intro hlast
      obtain rfl := hlast before peer detail behind rfl
      have hmem : (peer, Delivery.failed detail) ∈ before ++ [(peer, .failed detail)] := by simp
      refine ⟨by simp [offersOf], nofun, ⟨nofun, fun hrefused => ?_⟩, ?_⟩
      · cases hrefused _ hmem
      · rintro other hother
        cases hother
        exact ⟨_, hmem, rfl⟩
  | delivered hclear hsent =>
    refine iff_of_true ⟨.refl _, fun _ => hsent, ⟨nofun, fun hrefused => ?_⟩, nofun⟩ hclear.failsLast
    obtain ⟨course, hcourse, hcame⟩ := hsent
    rw [hrefused course hcourse] at hcame
    cases hcame
  | unheard hrefused =>
    have hclear : Clear courses := fun course hcourse detail => by rw [hrefused course hcourse]; nofun
    exact iff_of_true ⟨.refl _, nofun, ⟨fun _ => hrefused, fun _ => rfl⟩, nofun⟩ hclear.failsLast

end Offer

-- A message reaches all peers, and the report says how it went, exactly if no peer stands behind
-- one that fails; in any case those up to the first failing one are offered it, and nobody else.
theorem reachesAll_iff {m : Message} {frame : List UInt8} (h : Frame.encode m = .ok frame)
    (courses : List Course) :
    let run := send Bench.sendTo (courses.map Prod.fst) m { outcomes := courses.map Prod.snd }
    (ReachesAll frame courses run.1 run.2.offers ↔ FailsLast courses) ∧
      Sends frame courses run.1 run.2.offers := by
  have hrun : send Bench.sendTo (courses.map Prod.fst) m { outcomes := courses.map Prod.snd } =
      offer (Bench.sendTo frame) (courses.map Prod.fst) 0 { outcomes := courses.map Prod.snd } := by
    simp [send, h]
  have hnone : Clear [] := nofun
  have hsends := sends_offer frame courses hnone
  rw [hrun]
  exact ⟨reachesAll_iff_of_sends hsends, hsends⟩

-- The first of two peers cannot be sent to at all, and the second could be.
def unsendableFirst : List Course :=
  [(.v4 [127, 0, 0, 1] 0, .failed "Invalid argument (os error 22)"),
    (.v4 [127, 0, 0, 1] 65536, .sent)]

theorem reachesAll_iff_unsendableFirst :
    let frame := Frame.version :: Frame.body (.deinit 5)
    let run := send Bench.sendTo (unsendableFirst.map Prod.fst) (.deinit 5)
      { outcomes := unsendableFirst.map Prod.snd }
    Frame.encode (.deinit 5) = .ok frame ∧
      ¬ReachesAll frame unsendableFirst run.1 run.2.offers ∧
      run.1 = .error (.io "Invalid argument (os error 22)") ∧
      run.2.offers = [(frame, .v4 [127, 0, 0, 1] 0)] := by
  have hframe : Frame.encode (.deinit 5) = .ok (Frame.version :: Frame.body (.deinit 5)) :=
    Frame.encode_eq_ok.mpr ⟨by decide, rfl⟩
  refine ⟨hframe, fun hall => ?_, rfl, rfl⟩
  have hlast := (reachesAll_iff hframe unsendableFirst).1.mp hall
  exact List.cons_ne_nil _ _ (hlast [] _ _ _ rfl)

end GpioBridge.Datagram
