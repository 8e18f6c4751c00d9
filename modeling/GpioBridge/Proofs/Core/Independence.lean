import GpioBridge.Proofs.Core.Lockstep

namespace GpioBridge.Core

open Process

-- Meanwhile these replies came in, and to the uid nothing else has been done.
def Overhears (uid : UInt64) (core' : Core) (transfers : List Transfer)
    (acted : List Told × Core × List Transfer) : Prop :=
  ∃ messages, Transfer.messages transfers = messages ++ Transfer.messages acted.2.2 ∧
    toldOf uid acted.1 = (hearAll (messagesFor uid messages) core'.hub).1 ∧
    acted.2.1.view uid =
      ({ core' with hub := (hearAll (messagesFor uid messages) core'.hub).2 } : Core).view uid

section Other

variable {uid other : UInt64} {core core' last : Core} {deed : Deed} {id : ChipId} {outcome : Outcome}
  {operation : Operation} {α : Type} (transfers : List Transfer)

theorem overhears_of_run {left : List Transfer} {heard : List Told} (hdeed : deed.uid ≠ uid)
    (hoperation : deed.operation? core.hub = some operation)
    (hrun : operation.process.run scripted core ⟨transfers, []⟩ = (outcome, last, ⟨left, heard⟩))
    (h : Overhears uid core' transfers (heard, last, left)) :
    Overhears uid core' transfers ((⟨deed, transfers⟩ : Episode).act core) := by
  rw [act_of_run hoperation hrun]
  obtain ⟨messages, hleft, htold, hview⟩ := h
  refine ⟨messages, hleft, ?_, hview⟩
  rw [toldOf_concat, if_neg hdeed, List.append_nil, htold]

theorem overhears_of_alone (hdeed : deed.uid ≠ uid)
    (hoperation : deed.operation? core.hub = some operation)
    (hrun : ∀ script, operation.process.run scripted core script = (outcome, last, script))
    (hview : last.view uid = core'.view uid) :
    Overhears uid core' transfers ((⟨deed, transfers⟩ : Episode).act core) :=
  overhears_of_run transfers hdeed hoperation (hrun _) ⟨[], rfl, rfl, hview⟩

-- Lines of a chip that was made for another uid.
theorem overhears_of_aside {p : HubProcess α} {left : List Transfer} {heard : List Told} {result : α}
    (h : Twin uid core core') (hother : id ∉ core.hub.idsOf uid)
    (hp : ∀ P, Hub.KeptByTurns id P → Hub.Messaging P p)
    (hrun : (onHub p).run scripted core ⟨transfers, []⟩ = (result, last, ⟨left, heard⟩)) :
    Overhears uid core' transfers (heard, last, left) := by
  obtain ⟨messages, hleft, hheard, haside⟩ := run_aside (p := onHub p)
    (fun core' => maintains_onHub fun table => hp _ (keptByTurns_aside hother table)) ⟨h, rfl⟩
    ⟨transfers, []⟩
  rw [hrun] at hleft hheard haside
  exact ⟨messages, hleft, hheard, haside.twin.view⟩

theorem not_mem_idsOf (hne : other ≠ uid) (hid : id ∈ core.hub.idsOf other) :
    id ∉ core.hub.idsOf uid := fun hmem =>
  hne ((Hub.mem_idsOf.mp hid).2.symm.trans (Hub.mem_idsOf.mp hmem).2)

theorem overhears_use (h : Twin uid core core') (hne : other ≠ uid) (name : ChipId) (pin : UInt32)
    (action : Action) :
    Overhears uid core' transfers ((⟨.use other name pin action, transfers⟩ : Episode).act core) := by
  cases hname : core.hub.named? other name with
  | none =>
    simp only [Episode.act, Deed.operation?, hname, Option.map_none]
    exact ⟨[], rfl, rfl, h.view⟩
  | some id =>
    rcases hrun : (onHub (action.operation id pin).process).run scripted core ⟨transfers, []⟩ with
      ⟨result, last, left, heard⟩
    have hoperation : (Deed.use other name pin action).operation? core.hub =
        some (.hub (action.operation id pin)) := by simp [Deed.operation?, hname]
    refine overhears_of_run transfers hne hoperation ((run_hub _ core _).trans (by rw [hrun])) ?_
    exact overhears_of_aside transfers h (not_mem_idsOf hne (Hub.mem_of_named hname))
      (fun _ hkept => hkept.action pin action) hrun

theorem overhears_release (h : Twin uid core core') (ha : Aligned .plain core) (hne : other ≠ uid)
    (pin : UInt32) :
    Overhears uid core' transfers ((⟨.release other pin, transfers⟩ : Episode).act core) := by
  cases hr : core.table.releasable other pin with
  | error fault =>
    exact overhears_of_alone transfers hne rfl (run_release_of_error hr)
      h.view
  | ok ops =>
    obtain ⟨exposed, hf, rfl⟩ := LineTable.exists_of_releasable hr
    have hnamed := ha.seated ((consistent_of_aligned ha).find?_of_exposed hf)
    rcases hrun : (onHub (Hub.free exposed.ops pin)).run scripted core ⟨transfers, []⟩ with
      ⟨result, last, left, heard⟩
    obtain ⟨messages, hleft, htold, hview⟩ := overhears_of_aside transfers h
      (not_mem_idsOf hne hnamed) (fun _ hkept => hkept.setDirection .disabled) hrun
    exact overhears_of_run transfers hne rfl (run_release hr hrun)
      ⟨messages, hleft, htold, (view_setHolder_of_ne hne pin none last).trans hview⟩

-- Whatever is done about another uid.
theorem overhears_act (h : Twin uid core core') (ha : Aligned .plain core)
    (hlimit : core.hub.limit = none) (hdeed : deed.uid ≠ uid) :
    Overhears uid core' transfers ((⟨deed, transfers⟩ : Episode).act core) := by
  cases deed with
  | register r =>
    obtain ⟨result, last, hrun, hregisters⟩ := run_registration r core
    exact overhears_of_alone transfers hdeed rfl hrun
      ((view_of_registers_of_ne hregisters ha hlimit hdeed).trans h.view)
  | withdraw other =>
    obtain ⟨result, last, hrun, hwithdraws⟩ := run_withdrawal other core
    exact overhears_of_alone transfers hdeed rfl hrun
      ((view_of_withdraws_of_ne hwithdraws ha hdeed).trans h.view)
  | request other pin consumer =>
    exact overhears_of_alone transfers hdeed rfl (run_request other pin consumer core)
      ((view_grant_of_ne hdeed pin consumer core).trans h.view)
  | release other pin => exact overhears_release transfers h ha hdeed pin
  | use other name pin action => exact overhears_use transfers h hdeed name pin action
  | dispatch m =>
    refine overhears_of_alone transfers hdeed rfl (run_delivery m core) ?_
    refine Eq.trans (view_eq (Hub.view_deliver_of_ne h.hub.seated hdeed) ?_) h.view
    exact exposed_of_idsOf (Hub.idsOf_of_uids (Hub.uids_deliver m core.hub))

end Other

-- A core that has been through many things, and one that has been through the same as far as the
-- uid is concerned and has made no more chips.
structure Shadows (uid : UInt64) (core core' : Core) : Prop where
  view : core.view uid = core'.view uid
  fewer : core'.hub.chips.length ≤ core.hub.chips.length
  inLine : InLine 0 .plain core
  inLine' : InLine 0 .plain core'
  limit : core.hub.limit = none
  limit' : core'.hub.limit = none

section Shadows

variable {uid : UInt64} {core core' : Core} {episode : Episode} {transfers : List Transfer}

theorem Shadows.twin (h : Shadows uid core core') (hb : core.hub.chips.length < 2 ^ 64) :
    Twin uid core core' :=
  twin_of_view h.view (h.inLine.2 hb).seated (h.inLine'.2 (h.fewer.trans_lt hb)).seated

theorem Shadows.hearAll (h : Shadows uid core core') (hb : core.hub.chips.length < 2 ^ 64)
    (messages : List Message) :
    toldOf uid (hearAll messages core.hub).1 = (hearAll (messagesFor uid messages) core'.hub).1 ∧
      Shadows uid { core with hub := (hearAll messages core.hub).2 }
        { core' with hub := (hearAll (messagesFor uid messages) core'.hub).2 } := by
  obtain ⟨htold, htwin⟩ := (h.twin hb).hearAll messages
  refine ⟨htold, htwin.view, ?_, h.inLine.hearAll messages,
    h.inLine'.hearAll _, (limit_hearAll messages core).trans h.limit,
    (limit_hearAll _ core').trans h.limit'⟩
  rw [length_hearAll, length_hearAll]
  exact h.fewer

theorem lockstep_act {deed : Deed} (h : Shadows uid core core') (hb : core.hub.chips.length < 2 ^ 64)
    (hdeed : deed.uid = uid) (transfers : List Transfer) :
    deed.Lockstep uid transfers core core' := by
  have htwin := h.twin hb
  have ha := h.inLine.2 hb
  have ha' := h.inLine'.2 (h.fewer.trans_lt hb)
  cases deed with
  | register r => exact lockstep_register transfers htwin ha ha' hdeed h.limit h.limit'
  | withdraw other =>
    obtain rfl : other = uid := hdeed
    exact lockstep_withdraw transfers htwin ha ha'
  | request other pin consumer =>
    obtain rfl : other = uid := hdeed
    exact lockstep_request transfers htwin pin consumer
  | release other pin =>
    obtain rfl : other = uid := hdeed
    exact lockstep_release transfers htwin ha ha' pin
  | use other name pin action =>
    obtain rfl : other = uid := hdeed
    exact lockstep_use transfers htwin name pin action
  | dispatch m => exact lockstep_dispatch transfers htwin hdeed

-- What is done about the uid keeps one core the shadow of the other.
theorem Shadows.play_own {deed : Deed} (h : Shadows uid core core') (hdeed : deed.uid = uid)
    (hb : ((⟨deed, transfers⟩ : Episode).play core).2.hub.chips.length < 2 ^ 64) :
    toldOf uid ((⟨deed, transfers⟩ : Episode).play core).1 =
        ((⟨deed, transfers.map (·.only uid)⟩ : Episode).play core').1 ∧
      Shadows uid ((⟨deed, transfers⟩ : Episode).play core).2
        ((⟨deed, transfers.map (·.only uid)⟩ : Episode).play core').2 := by
  have hacted := (length_hearAll _ _).ge.trans_lt hb
  have hmatched := lockstep_act h ((length_le_act h.inLine _).trans_lt hacted) hdeed transfers
  have hshadows : Shadows uid ((⟨deed, transfers⟩ : Episode).act core).2.1
      ((⟨deed, transfers.map (·.only uid)⟩ : Episode).act core').2.1 :=
    ⟨hmatched.view, hmatched.fewer h.fewer, h.inLine.act _, h.inLine'.act _,
      (limit_act _ core).trans h.limit, (limit_act _ core').trans h.limit'⟩
  obtain ⟨htold, hlast⟩ := hshadows.hearAll hacted
    (Transfer.messages ((⟨deed, transfers⟩ : Episode).act core).2.2)
  rw [← Transfer.messages_only, ← hmatched.left] at htold hlast
  refine ⟨?_, hlast⟩
  rw [Episode.play, toldOf, List.filter_append]
  exact congrArg₂ (· ++ ·) hmatched.told htold

-- What is done about another uid is to the shadow that replies come in.
theorem Shadows.play_other (h : Shadows uid core core') (hdeed : episode.deed.uid ≠ uid)
    (hb : (episode.play core).2.hub.chips.length < 2 ^ 64) :
    toldOf uid (episode.play core).1 =
        (Core.hearAll (messagesFor uid (Transfer.messages episode.transfers)) core'.hub).1 ∧
      Shadows uid (episode.play core).2 { core' with
        hub := (Core.hearAll (messagesFor uid (Transfer.messages episode.transfers)) core'.hub).2 } := by
  have hacted := (length_hearAll _ _).ge.trans_lt hb
  have hfirst := (length_le_act h.inLine episode).trans_lt hacted
  obtain ⟨messages, hleft, htold, hview⟩ := overhears_act episode.transfers (h.twin hfirst)
    (h.inLine.2 hfirst) h.limit hdeed
  have hshadows : Shadows uid (episode.act core).2.1
      { core' with hub := (Core.hearAll (messagesFor uid messages) core'.hub).2 } := by
    refine ⟨hview, ?_, h.inLine.act episode, h.inLine'.hearAll _,
      (limit_act episode core).trans h.limit, (limit_hearAll _ core').trans h.limit'⟩
    rw [length_hearAll]
    exact h.fewer.trans (length_le_act h.inLine episode)
  obtain ⟨hrest, hlast⟩ := hshadows.hearAll hacted (Transfer.messages (episode.act core).2.2)
  rw [hleft, messagesFor, List.filter_append, hearAll_append]
  refine ⟨?_, hlast⟩
  rw [Episode.play, toldOf, List.filter_append]
  exact congrArg₂ (· ++ ·) htold hrest

theorem Shadows.play (h : Shadows uid core core') (episode : Episode)
    (hb : (episode.play core).2.hub.chips.length < 2 ^ 64) :
    toldOf uid (episode.play core).1 = (course (episode.only uid) core').1 ∧
      Shadows uid (episode.play core).2 (course (episode.only uid) core').2 := by
  unfold Episode.only
  by_cases hdeed : episode.deed.uid = uid
  · obtain ⟨htold, hlast⟩ := h.play_own hdeed hb
    rw [if_pos hdeed]
    simpa [course] using ⟨htold, hlast⟩
  · rw [if_neg hdeed, course_dispatch]
    exact h.play_other hdeed hb

-- A core keeps the shadow it has, whatever is done about others.
theorem Shadows.course (h : Shadows uid core core') (episodes : List Episode)
    (hb : (course episodes core).2.hub.chips.length < 2 ^ 64) :
    toldOf uid (course episodes core).1 = (course (asked uid episodes) core').1 ∧
      Shadows uid (course episodes core).2 (course (asked uid episodes) core').2 := by
  induction episodes generalizing core core' with
  | nil => exact ⟨rfl, h⟩
  | cons episode rest ih =>
    have hnext := (length_le_course (h.inLine.play episode) rest).trans_lt hb
    obtain ⟨htold, hshadows⟩ := h.play episode hnext
    obtain ⟨hrest, hlast⟩ := ih hshadows hb
    rw [asked, List.flatMap_cons, course_append]
    refine ⟨?_, hlast⟩
    rw [Core.course, toldOf, List.filter_append]
    exact congrArg₂ (· ++ ·) htold hrest

end Shadows

-- The uid is the same in both: its chip, but for the number of a handle, whether it is exposed, and
-- who holds its lines.
structure Agree (uid : UInt64) (core core' : Core) : Prop where
  chip : (core.hub.find? uid).map (fun id => (core.hub.chip id).unnumbered) =
    (core'.hub.find? uid).map fun id => (core'.hub.chip id).unnumbered
  exposed : (core.table.find? uid).isSome = (core'.table.find? uid).isSome
  holder : ∀ pin, core.table.holder? uid pin = core'.table.holder? uid pin

theorem agree_of_twin {uid : UInt64} {core core' : Core} (h : Twin uid core core') :
    Agree uid core core' where
  chip := by
    have hchip : ∀ hub : Hub, hub.Seated → (hub.find? uid).map (fun id => (hub.chip id).unnumbered) =
        (hub.view uid).current?.map (·.2) := by
      intro hub hseated
      rw [Hub.current?_view hseated, Option.map_map]
      rfl
    rw [hchip core.hub h.hub.seated, hchip core'.hub h.hub.seated', h.hub.view]
  exposed := by
    rcases h.shown with ⟨hf, hf'⟩ | ⟨exposed, exposed', hf, hf', -⟩
    · rw [hf, hf']
    · rw [hf, hf', Option.isSome_some, Option.isSome_some]
  holder pin := by
    unfold LineTable.holder?
    rcases h.shown with ⟨hf, hf'⟩ | ⟨exposed, exposed', hf, hf', hcalled⟩
    all_goals rw [hf, hf']
    exact congrArg (fun exposed => (exposed.held[pin.toNat]?).join) hcalled

theorem shadows_empty (uid : UInt64) (patience : UInt64) :
    Shadows uid { hub := { patience } } { hub := { patience } } where
  view := rfl
  fewer := Nat.le_refl _
  inLine := ⟨Nat.le_refl _, fun _ => aligned_empty none patience⟩
  inLine' := ⟨Nat.le_refl _, fun _ => aligned_empty none patience⟩
  limit := rfl
  limit' := rfl

-- Where the same was done about a uid it came to the same, and in the end the uid is the same,
-- whatever was done about others and whenever.
theorem independent_of_courses {uid patience : UInt64} {episodes episodes' : List Episode}
    (hasked : asked uid episodes = asked uid episodes')
    (hb : (course episodes { hub := { patience } }).2.hub.chips.length < 2 ^ 64)
    (hb' : (course episodes' { hub := { patience } }).2.hub.chips.length < 2 ^ 64) :
    toldOf uid (course episodes { hub := { patience } }).1 =
        toldOf uid (course episodes' { hub := { patience } }).1 ∧
      Agree uid (course episodes { hub := { patience } }).2
        (course episodes' { hub := { patience } }).2 := by
  obtain ⟨htold, hlast⟩ := (shadows_empty uid patience).course episodes hb
  obtain ⟨htold', hlast'⟩ := (shadows_empty uid patience).course episodes' hb'
  refine ⟨?_, agree_of_twin (twin_of_view ?_ (hlast.inLine.2 hb).seated (hlast'.inLine.2 hb').seated)⟩
  · rw [htold, hasked, htold']
  · rw [hlast.view, hasked, hlast'.view]

-- A relay alone, whose line is driven after a reply that nobody asked for.
def aloneCourse : List Episode :=
  [⟨.register ⟨5, "relay", 1, ["coil"]⟩, []⟩,
    ⟨.request 5 0 "valve", []⟩,
    ⟨.dispatch (.getValueReply 5 0 0 (some 1)), []⟩,
    ⟨.use 5 ⟨0⟩ 0 (.setValue true), [⟨.ok (), [.setValueReply 5 0 0]⟩]⟩,
    ⟨.withdraw 5, []⟩]

-- The same beside a lamp that was there before. That reply comes in while the lamp is asked, and a
-- reply for the lamp while the relay is driven.
def crowdedCourse : List Episode :=
  [⟨.register ⟨7, "", 1, ["lamp"]⟩, []⟩,
    ⟨.register ⟨5, "relay", 1, ["coil"]⟩, []⟩,
    ⟨.request 7 0 "porch", []⟩,
    ⟨.request 5 0 "valve", []⟩,
    ⟨.use 7 ⟨0⟩ 0 .getValue,
      [⟨.ok (), [.getValueReply 5 0 0 (some 1), .getValueReply 7 0 0 (some 1)]⟩]⟩,
    ⟨.use 5 ⟨0⟩ 0 (.setValue true), [⟨.ok (), [.setValueReply 7 0 0, .setValueReply 5 0 0]⟩]⟩,
    ⟨.release 7 0, [⟨.error .noSubscribers, []⟩]⟩,
    ⟨.withdraw 7, []⟩,
    ⟨.withdraw 5, []⟩]

theorem independent_of_courses_relay :
    asked 5 aloneCourse = asked 5 crowdedCourse ∧
      (course aloneCourse { hub := { patience := 2000 } }).2.hub.chips.length = 1 ∧
      (course crowdedCourse { hub := { patience := 2000 } }).2.hub.chips.length = 2 ∧
      (toldOf 5 (course aloneCourse { hub := { patience := 2000 } }).1 =
          toldOf 5 (course crowdedCourse { hub := { patience := 2000 } }).1 ∧
        Agree 5 (course aloneCourse { hub := { patience := 2000 } }).2
          (course crowdedCourse { hub := { patience := 2000 } }).2) := by
  have hasked : asked 5 aloneCourse = asked 5 crowdedCourse := by rfl
  have halone : (course aloneCourse { hub := { patience := 2000 } }).2.hub.chips.length = 1 := by
    decide +kernel
  have hcrowded : (course crowdedCourse { hub := { patience := 2000 } }).2.hub.chips.length = 2 := by
    decide +kernel
  exact ⟨hasked, halone, hcrowded,
    independent_of_courses hasked (by rw [halone]; decide) (by rw [hcrowded]; decide)⟩

end GpioBridge.Core
