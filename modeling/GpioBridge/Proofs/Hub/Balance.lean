import GpioBridge.Proofs.Hub.Marks
import GpioBridge.Proofs.Process.Course
import GpioBridge.Proofs.Process.Maintains
import Mathlib.Data.List.Nodup
import Mathlib.Logic.Relation

namespace GpioBridge.Hub

-- A demand and how it was answered.
abbrev Dealing := (demand : Demand) × demand.Answer

def Dealing.issued? : Dealing → Option Handle
  | ⟨.expose _ _, answer⟩ => Except.toOption answer
  | _ => none

def Dealing.concealed? : Dealing → Option Handle
  | ⟨.conceal handle, _⟩ => some handle
  | _ => none

-- The handles chips were exposed under.
def issued (past : List Dealing) : List Handle := past.filterMap Dealing.issued?

-- The handles that were given back.
def concealed (past : List Dealing) : List Handle := past.filterMap Dealing.concealed?

-- The handles the chips have.
def handles (hub : Hub) : List Handle := hub.chips.flatMap (·.handle.toList)

-- Delivers replies one after the other.
def deliverAll (messages : List Message) (hub : Hub) : Hub :=
  messages.foldl (fun hub m => (deliver m hub).2) hub

-- Surroundings that keep a record of how they answer, and that do nothing to a hub but bring it
-- replies.
structure Records {τ : Type} (around : Process.Surroundings Hub τ Demand Demand.Answer)
    (past : τ → List Dealing) : Prop where
  answer : ∀ demand hub t, past (around.answer demand hub t).2.2 =
    past t ++ [⟨demand, (around.answer demand hub t).1⟩]
  hear : ∀ event t, past (around.hear event t) = past t
  replies : ∀ demand hub t, ∃ messages,
    (around.answer demand hub t).2.1 = deliverAll messages hub

-- A chip that is gone for good.
structure Gone (chip : Chip) : Prop where
  retired : chip.retired = true
  initialized : chip.initialized = false
  registered : chip.registered = false
  handle : chip.handle = none

namespace Stage

-- The handle that was issued and that no chip has yet.
def fresh : Stage → List Handle
  | confirming _ handle => [handle]
  | _ => []

-- The handle that was given back and that a chip still has.
def spent (hub : Hub) : Stage → List Handle
  | releasing id | finishing id _ => (hub.chip id).handle.toList
  | _ => []

-- The chips that no uid names any more and that are still to be retired.
def charge : Stage → List ChipId
  | abandoning id => [id]
  | g => g.todo

end Stage

-- What an operation needs at its stage.
def Needs (hub : Hub) : Stage → Prop
  | .exposing r id | .offering r id _ => hub.find? r.uid = some id ∧ (hub.chip id).handle = none
  | .refused uid id => hub.find? uid = some id ∧ (hub.chip id).handle = none
  | .confirming id _ => (∃ uid, hub.find? uid = some id) ∧ (hub.chip id).handle = none
  | .abandoning id => (hub.chip id).handle = none
  | .found id | .suspending id | .releasing id => ∃ uid, hub.find? uid = some id
  | .scanning id handle => (∃ uid, hub.find? uid = some id) ∧ (hub.chip id).handle = some handle
  | .concealing id handle _ =>
    (hub.chip id).handle = some handle ∧ (hub.chip id).initialized = false
  | .finishing id _ => (hub.chip id).initialized = false
  | _ => True

-- The handles of a hub and those in its record agree, as the stage has it.
structure Even (g : Stage) (hub : Hub) (past : List Dealing) : Prop where
  made : ∀ {uid id}, hub.find? uid = some id → hub.Has id
  marked : ∀ id, (hub.chip id).registered = (hub.chip id).handle.isSome
  -- A chip that no uid names is gone, or on its way.
  gone : ∀ {id}, hub.Has id → (∀ uid, hub.find? uid ≠ some id) → id ∉ g.charge → Gone (hub.chip id)
  charged : ∀ {id}, id ∈ g.charge → hub.Has id
  even : ∀ handle, (issued past).count handle + (g.spent hub).count handle =
    (concealed past).count handle + g.fresh.count handle + hub.handles.count handle
  needs : Needs hub g

theorem even_empty (limit : Option Nat) (patience : UInt64) : Even .plain { limit, patience } [] where
  made h := by cases h
  marked _ := rfl
  gone h := absurd h (Nat.not_lt_zero _)
  charged := nofun
  even _ := rfl
  needs := trivial

section Step

variable {g g' : Stage} {hub hub' : Hub} {past : List Dealing} {id : ChipId} {uid : UInt64}
  {r : Registration} {change : Hub → Hub}

theorem count_handles_modifyChip (h : hub.Has id) (f : Chip → Chip) (handle : Handle) :
    (hub.modifyChip id f).handles.count handle + (hub.chip id).handle.toList.count handle =
      hub.handles.count handle + (f (hub.chip id)).handle.toList.count handle := by
  obtain ⟨before, after, hchips, -, hmodify⟩ := exists_split h
  unfold handles
  rw [hmodify, hchips]
  simp only [List.flatMap_append, List.flatMap_cons, List.count_append]
  omega

theorem handles_of_outline (h : hub'.outline = hub.outline) : hub'.handles = hub.handles := by
  have hmap : ∀ hub : Hub, hub.outline.handles = hub.handles := by
    intro hub
    simp only [handles, outline, List.flatMap_map, Chip.outline]
  rw [← hmap, h, hmap]

-- Replies bring no handle and take none.
theorem outline_deliverAll (messages : List Message) (hub : Hub) :
    (deliverAll messages hub).outline = hub.outline := by
  induction messages generalizing hub with
  | nil => rfl
  | cons m rest ih => exact (ih _).trans (outline_deliver m hub)

theorem needs_of_outline (h : hub'.outline = hub.outline) (hneeds : Needs hub g) : Needs hub' g := by
  unfold Needs at hneeds ⊢
  simp only [find?_of_outline h, handle_of_outline h, initialized_of_outline h]
  exact hneeds

theorem spent_of_outline (h : hub'.outline = hub.outline) (g : Stage) :
    g.spent hub' = g.spent hub := by
  cases g <;> simp only [Stage.spent, handle_of_outline h]

theorem Even.of_outline (he : Even g hub past) (h : hub'.outline = hub.outline) :
    Even g hub' past where
  made hf := by
    rw [find?_of_outline h] at hf
    exact (has_of_outline h _).mpr (he.made hf)
  marked id := by
    rw [registered_of_outline h, handle_of_outline h]
    exact he.marked id
  gone {id} hhas hunmapped hcharge := by
    simp only [find?_of_outline h] at hunmapped
    have hgone := he.gone ((has_of_outline h id).mp hhas) hunmapped hcharge
    exact ⟨(retired_of_outline h id).trans hgone.retired,
      (initialized_of_outline h id).trans hgone.initialized,
      (registered_of_outline h id).trans hgone.registered, (handle_of_outline h id).trans hgone.handle⟩
  charged hmem := (has_of_outline h _).mpr (he.charged hmem)
  even handle := by
    rw [spent_of_outline h, handles_of_outline h]
    exact he.even handle
  needs := needs_of_outline h he.needs

-- A stage can be left for one that has the same in its hands.
theorem Even.stay (he : Even g hub past) (hneeds : Needs hub g') (hcharge : g'.charge = g.charge)
    (hfresh : g'.fresh = g.fresh) (hspent : g'.spent hub = g.spent hub) : Even g' hub past where
  made := he.made
  marked := he.marked
  gone hhas hunmapped hmem := he.gone hhas hunmapped (hcharge ▸ hmem)
  charged hmem := he.charged (hcharge ▸ hmem)
  even handle := by
    rw [hfresh, hspent]
    exact he.even handle
  needs := hneeds

theorem Even.idle (he : Even g hub past) (hg : g.idle = true) (hg' : g'.idle = true) :
    Even g' hub past := by
  cases g <;> cases hg <;> cases g' <;> cases hg' <;> exact he.stay trivial rfl rfl rfl

-- One chip is changed, and with it what the stage has in its hands.
theorem Even.modify (he : Even g hub past) (hhas : hub.Has id) {f : Chip → Chip}
    (hmarked : (f (hub.chip id)).registered = (f (hub.chip id)).handle.isSome)
    (hgone : (∀ uid, hub.find? uid ≠ some id) → id ∉ g'.charge → Gone (f (hub.chip id)))
    (hcharge : ∀ other, other ≠ id → (other ∈ g'.charge ↔ other ∈ g.charge))
    (heven : ∀ handle, (g'.spent (hub.modifyChip id f)).count handle + g.fresh.count handle +
        (hub.chip id).handle.toList.count handle =
      (g.spent hub).count handle + g'.fresh.count handle +
        (f (hub.chip id)).handle.toList.count handle)
    (hneeds : Needs (hub.modifyChip id f) g') : Even g' (hub.modifyChip id f) past where
  made hf := has_modifyChip.mpr (he.made hf)
  marked other := by
    by_cases hother : other = id
    · rw [hother, chip_modifyChip_self hhas]
      exact hmarked
    · rw [chip_modifyChip_of_ne hother]
      exact he.marked other
  gone {other} hmade hunmapped hmem := by
    by_cases hother : other = id
    · rw [hother] at hunmapped hmem ⊢
      rw [chip_modifyChip_self hhas]
      exact hgone hunmapped hmem
    · rw [chip_modifyChip_of_ne hother]
      exact he.gone (has_modifyChip.mp hmade) hunmapped (mt (hcharge other hother).mpr hmem)
  charged {other} hmem := by
    rw [has_modifyChip]
    by_cases hother : other = id
    · rw [hother]
      exact hhas
    · exact he.charged ((hcharge other hother).mp hmem)
  even handle := by
    have hcount := count_handles_modifyChip hhas f handle
    have hbefore := he.even handle
    have hchange := heven handle
    omega
  needs := hneeds

-- A chip without a handle loses its uid.
theorem Even.erase (he : Even g hub past) (hf : hub.find? uid = some id)
    (hhandle : (hub.chip id).handle = none) (hcharge : g.charge = []) (hfresh : g.fresh = [])
    (hspent : g.spent hub = []) :
    Even (.abandoning id) { hub with registry := hub.registry.erase uid } past where
  made {other _} hother := by
    change (hub.registry.erase uid).get? other = _ at hother
    rw [UidMap.get?_erase] at hother
    split at hother
    · cases hother
    · exact he.made hother
  marked := he.marked
  gone {other} hmade hunmapped hmem := by
    refine he.gone hmade (fun name hname => hunmapped name ?_) (by simp [hcharge])
    change (hub.registry.erase uid).get? name = _
    rw [UidMap.get?_erase, if_neg]
    · exact hname
    · rintro rfl
      rw [hf] at hname
      exact hmem (List.mem_singleton.mpr (Option.some.inj hname).symm)
  charged hmem := by
    obtain rfl := List.mem_singleton.mp hmem
    exact he.made hf
  even handle := by
    have hbefore := he.even handle
    rw [hfresh, hspent] at hbefore
    exact hbefore
  needs := hhandle

theorem even_evict (he : Even (.registering r) hub past) (hf : hub.find? r.uid = some id)
    (hinitialized : (hub.chip id).initialized = false)
    (hregistered : (hub.chip id).registered = false) :
    Even (.registering r) (hub.evict r.uid id) past := by
  have hhandle : (hub.chip id).handle = none := by
    simpa [hregistered] using (he.marked id).symm
  have herased := he.erase hf hhandle rfl rfl rfl
  refine herased.modify (herased.charged (List.mem_singleton_self id)) ?_ ?_ ?_ (fun _ => rfl) trivial
  · exact herased.marked id
  · exact fun _ _ => ⟨rfl, hinitialized, hregistered, hhandle⟩
  · intro other hother
    simp [Stage.charge, Stage.todo, hother]

theorem even_enlisted (he : Even (.registering r) hub past) (hf : hub.find? r.uid = none) :
    Even (.exposing r hub.nextId) (hub.enlisted r) past where
  made {name other} hother := by
    rw [find?_enlisted] at hother
    split at hother
    · exact has_enlisted.mpr (.inr (Option.some.inj hother).symm)
    · exact has_enlisted.mpr (.inl (he.made hother))
  marked other := by
    rw [chip_enlisted]
    split
    · rfl
    · exact he.marked other
  gone {other} hmade hunmapped _ := by
    rcases has_enlisted.mp hmade with hmade | rfl
    · rw [chip_enlisted_of_has hmade]
      exact he.gone hmade (fun name hname => hunmapped name (find?_enlisted_of_find? hf hname))
        List.not_mem_nil
    · exact absurd (by rw [find?_enlisted, if_pos rfl]) (hunmapped r.uid)
  charged := nofun
  even handle := by
    have hhandles : (hub.enlisted r).handles = hub.handles := by
      simp [handles, enlisted, Registration.chip, Chip.create]
    rw [hhandles]
    exact he.even handle
  needs := by
    refine ⟨by rw [find?_enlisted, if_pos rfl], ?_⟩
    rw [chip_enlisted_nextId]
    rfl

theorem even_enlist (he : Even (.registering r) hub past) :
    Even (.ofEnlistment r (enlist r hub).1) (enlist r hub).2 past := by
  have h := enlists_enlist r hub
  generalize (enlist r hub).1 = enlistment at h
  generalize (enlist r hub).2 = hub' at h
  cases h with
  | refused | full => exact he.stay trivial rfl rfl rfl
  | fresh hf => exact even_enlisted he hf
  | fullAfterEviction hf hi hr => exact (even_evict he hf hi hr).stay trivial rfl rfl rfl
  | @replaced stale hf hi hr =>
    rw [← nextId_evict hub r.uid stale]
    exact even_enlisted (even_evict he hf hi hr) (by rw [find?_evict, if_pos rfl])

theorem even_unmap (he : Even (.refused uid id) hub past) :
    Even (.abandoning id) (unmap uid id hub) past := by
  obtain ⟨hf, hhandle⟩ := he.needs
  rw [unmap, if_pos hf]
  exact he.erase hf hhandle rfl rfl rfl

theorem even_suspend (he : Even (.suspending id) hub past) :
    Even (.ofSuspension id (suspend id hub).1) (suspend id hub).2 past := by
  obtain ⟨uid, hf⟩ := he.needs
  have hhas := he.made hf
  have h := suspends_suspend id hub
  generalize (suspend id hub).1 = suspension at h
  generalize (suspend id hub).2 = hub' at h
  cases h with
  | settled => exact he.stay trivial rfl rfl rfl
  | unexposed hr hh =>
    refine he.modify hhas ?_ (fun hunmapped => absurd hf (hunmapped uid)) (fun _ _ => Iff.rfl)
      (fun _ => rfl) trivial
    simp [hh]
  | exposed hr hh =>
    refine he.modify hhas (he.marked id) (fun hunmapped => absurd hf (hunmapped uid))
      (fun _ _ => Iff.rfl) (fun _ => rfl) ⟨⟨uid, hf⟩, ?_⟩
    rw [chip_modifyChip_self hhas]
    exact hh

theorem even_drain (he : Even .tearingDown hub past) :
    Even (.ofList hub.drain.1) hub.drain.2 past := by
  have hcharge : (Stage.ofList hub.drain.1).charge = hub.drain.1 := by
    cases hub.drain.1 <;> rfl
  have hlisted : ∀ {name other}, hub.find? name = some other → other ∈ hub.drain.1 :=
    fun hf => List.mem_map.mpr ⟨_, (UidMap.get?_eq_some_iff ..).mp hf, rfl⟩
  constructor
  case made => exact nofun
  case marked => exact he.marked
  case gone =>
    intro other hmade _ hmem
    rw [hcharge] at hmem
    exact he.gone hmade (fun name hname => hmem (hlisted hname)) List.not_mem_nil
  case charged =>
    intro other hmem
    rw [hcharge] at hmem
    obtain ⟨⟨name, _⟩, hentry, rfl⟩ := List.mem_map.mp hmem
    exact he.made ((UidMap.get?_eq_some_iff ..).mpr hentry)
  case even =>
    intro handle
    have hbefore := he.even handle
    cases hub.drain.1 <;> exact hbefore
  case needs => cases hub.drain.1 <;> trivial

theorem even_disable {rest : List ChipId} (he : Even (.retiring id rest) hub past) :
    Even (.ofHandle id rest (disable id hub).1) (disable id hub).2 past := by
  have hhas := he.charged List.mem_cons_self
  have hsame : ∀ chip : Chip, ({ chip with initialized := false } : Chip).handle = chip.handle :=
    fun _ => rfl
  simp only [disable]
  cases hh : (hub.chip id).handle with
  | none =>
    refine he.modify hhas (he.marked id) (fun _ hmem => absurd List.mem_cons_self hmem)
      (fun _ _ => Iff.rfl) (fun handle => ?_) ?_
    · simp [Stage.ofHandle, Stage.spent, Stage.fresh, chip_modifyChip_self hhas, hh]
    · simp [Stage.ofHandle, Needs, chip_modifyChip_self hhas]
  | some handle =>
    refine he.modify hhas (he.marked id) (fun _ hmem => absurd List.mem_cons_self hmem)
      (fun _ _ => Iff.rfl) (fun _ => rfl) ?_
    simp [Stage.ofHandle, Needs, chip_modifyChip_self hhas, hh]

theorem even_retire {rest : List ChipId} (he : Even (.finishing id rest) hub past) :
    Even (.ofList rest) (retire id hub) past := by
  have hhas := he.charged List.mem_cons_self
  have hcharge : (Stage.ofList rest).charge = rest := by cases rest <;> rfl
  refine he.modify hhas rfl (fun _ _ => ⟨rfl, he.needs, rfl, rfl⟩) (fun other hother => ?_)
    (fun handle => ?_) ?_
  · rw [hcharge]
    exact (List.mem_cons.trans (or_iff_right hother)).symm
  · cases rest <;> simp [Stage.ofList, Stage.spent, Stage.fresh]
  · cases rest <;> trivial

-- Every step keeps the handles even, as the stage it leads to has it.
theorem even_of_steps (h : Stage.Steps g change hub g') (he : Even g hub past) :
    Even g' (change hub) past := by
  by_cases hidle : g.idle = true
  · obtain ⟨houtline, hidle'⟩ := Stage.outline_of_steps h hidle
    exact (he.idle hidle hidle').of_outline houtline
  cases h with
  | enlist => exact even_enlist he
  | read => exact he.stay he.needs rfl rfl rfl
  | @confirm id handle =>
    obtain ⟨⟨uid, hf⟩, hhandle⟩ := he.needs
    refine he.modify (he.made hf) rfl (fun hunmapped => absurd hf (hunmapped uid))
      (fun _ _ => Iff.rfl) (fun handle => ?_) trivial
    simp [Stage.spent, Stage.fresh, hhandle]
  | unmap => exact even_unmap he
  | @abandon id =>
    have hhandle : (hub.chip id).handle = none := he.needs
    have hmarked := he.marked id
    refine he.modify (he.charged (List.mem_singleton_self id)) hmarked
      (fun _ _ => ⟨rfl, rfl, by simpa [hhandle] using hmarked, hhandle⟩) (fun other hother => ?_)
      (fun _ => rfl) trivial
    simp [Stage.charge, Stage.todo, hother]
  | @find uid _ =>
    cases hf : hub.find? uid with
    | none => exact he.stay trivial rfl rfl rfl
    | some id => exact he.stay ⟨uid, hf⟩ rfl rfl rfl
  | @check id _ =>
    cases (hub.chip id).registered with
    | false => exact he.stay trivial rfl rfl rfl
    | true => exact he.stay he.needs rfl rfl rfl
  | suspend => exact even_suspend he
  | @resume id handle =>
    obtain ⟨⟨uid, hf⟩, -⟩ := he.needs
    exact he.modify (he.made hf) (he.marked id) (fun hunmapped => absurd hf (hunmapped uid))
      (fun _ _ => Iff.rfl) (fun _ => rfl) trivial
  | @release id =>
    obtain ⟨uid, hf⟩ := he.needs
    refine he.modify (he.made hf) rfl (fun hunmapped => absurd hf (hunmapped uid))
      (fun _ _ => Iff.rfl) (fun handle => ?_) trivial
    simp [Stage.spent, Stage.fresh]
  | drain => exact even_drain he
  | disable => exact even_disable he
  | retire => exact even_retire he
  | _ => exact absurd rfl hidle

-- So does every answer.
theorem even_of_asks {demand : Demand} {answer : demand.Answer}
    (h : Stage.Asks g demand answer g') (he : Even g hub past) :
    Even g' hub (past ++ [⟨demand, answer⟩]) := by
  suffices hsuffices : Needs hub g' ∧ g'.charge = g.charge ∧ ∀ handle,
      (issued [⟨demand, answer⟩]).count handle + (g'.spent hub).count handle + g.fresh.count handle =
        (concealed [⟨demand, answer⟩]).count handle + g'.fresh.count handle +
          (g.spent hub).count handle by
    obtain ⟨hneeds, hcharge, hcount⟩ := hsuffices
    refine ⟨he.made, he.marked, fun hhas hunmapped hmem => he.gone hhas hunmapped (hcharge ▸ hmem),
      fun hmem => he.charged (hcharge ▸ hmem), fun handle => ?_, hneeds⟩
    have hbefore := he.even handle
    have hmore := hcount handle
    simp only [issued, concealed, List.filterMap_append, List.count_append] at hbefore hmore ⊢
    omega
  cases h with
  | send => exact ⟨trivial, rfl, fun _ => rfl⟩
  | @expose r id _ answer =>
    obtain ⟨hf, hhandle⟩ := he.needs
    cases answer with
    | ok handle =>
      refine ⟨⟨⟨r.uid, hf⟩, hhandle⟩, rfl, fun other => ?_⟩
      change [handle].count other + 0 + 0 = 0 + [handle].count other + 0
      omega
    | error fault => exact ⟨⟨hf, hhandle⟩, rfl, fun _ => rfl⟩
  | isHeld => exact ⟨he.needs, rfl, fun _ => rfl⟩
  | @withdrawn id handle =>
    obtain ⟨hf, hhandle⟩ := he.needs
    refine ⟨hf, rfl, fun other => ?_⟩
    change 0 + (hub.chip id).handle.toList.count other + 0 = [handle].count other + 0 + 0
    rw [hhandle, Option.toList_some]
    omega
  | @concealed id handle =>
    obtain ⟨hhandle, hinitialized⟩ := he.needs
    refine ⟨hinitialized, rfl, fun other => ?_⟩
    change 0 + (hub.chip id).handle.toList.count other + 0 = [handle].count other + 0 + 0
    rw [hhandle, Option.toList_some]
    omega

end Step

-- Operations are carried out one after the other, and in between consumers may ask whatever exposes
-- the chips for lines.
inductive Proceeds {τ : Type} (around : Process.Surroundings Hub τ Demand Demand.Answer)
    (past : τ → List Dealing) : Hub × τ → Hub × τ → Prop where
  | operation (operation : Operation) {hub t} :
      Proceeds around past (hub, t) (operation.process.run around hub t).2
  | meanwhile {hub t t'} (h : past t' = past t) : Proceeds around past (hub, t) (hub, t')

section Run

variable {τ α : Type} {around : Process.Surroundings Hub τ Demand Demand.Answer}
  {past : τ → List Dealing} {hub hub' : Hub} {t t' : τ}

theorem even_of_run (hrecords : Records around past) {last : α → Stage → Prop} {g : Stage}
    {p : HubProcess α} (hp : p.Follows plan last g) (he : Even g hub (past t)) :
    ∃ g', last (p.run around hub t).1 g' ∧
      Even g' (p.run around hub t).2.1 (past (p.run around hub t).2.2) := by
  refine hp.run (P := fun g hub t => Even g hub (past t)) ?_ ?_ ?_ he
  · exact fun hsteps he => even_of_steps hsteps he
  · intro g event hub t he
    rw [hrecords.hear]
    exact he
  · intro g demand g' hub t hasks he
    obtain ⟨messages, hreplies⟩ := hrecords.replies demand hub t
    rw [hrecords.answer, hreplies]
    exact (even_of_asks hasks he).of_outline (outline_deliverAll messages hub)

theorem Operation.even_stage (operation : Operation) {past : List Dealing}
    (he : Even .plain hub past) : Even operation.stage hub past := by
  cases operation with
  | register r =>
    unfold stage Stage.ofRegistration
    simp only
    split
    · exact he.stay trivial rfl rfl rfl
    · exact he
  | _ => exact he.stay trivial rfl rfl rfl

theorem Even.ended {outcome : Outcome} {g : Stage} {past : List Dealing} (he : Even g hub past)
    (h : Ended outcome g) : Even .plain hub past := by
  cases h <;> exact he.stay trivial rfl rfl rfl

theorem even_of_proceeds (hrecords : Records around past) {last : Hub × τ}
    (h : Relation.ReflTransGen (Proceeds around past) (hub, t) last)
    (he : Even .plain hub (past t)) : Even .plain last.1 (past last.2) := by
  induction h with
  | refl => exact he
  | tail _ hstep ih =>
    cases hstep with
    | operation operation =>
      obtain ⟨g, hended, hend⟩ :=
        even_of_run hrecords (follows_process operation) (operation.even_stage ih)
      exact hend.ended hended
    | meanwhile hsame =>
      rw [hsame]
      exact ih

-- Each handle was given back as often as it was issued: exactly once, if no handle is issued twice.
structure Returned (past : List Dealing) : Prop where
  even : (concealed past).Perm (issued past)
  once : (issued past).Nodup → ∀ handle,
    (concealed past).count handle = if handle ∈ issued past then 1 else 0

theorem returned_of_perm {past : List Dealing} (h : (concealed past).Perm (issued past)) :
    Returned past :=
  ⟨h, fun hdistinct handle => (h.count_eq handle).trans hdistinct.count⟩

-- There is no chip left that is not gone, and everything was given back.
structure Cleared (hub : Hub) (past : List Dealing) : Prop where
  unmapped : hub.registry = ∅
  gone : ∀ chip ∈ hub.chips, Gone chip
  returned : Returned past

theorem Cleared.of_outline {past : List Dealing} (h : Cleared hub past)
    (houtline : hub'.outline = hub.outline) : Cleared hub' past where
  unmapped := by
    have hregistry := congrArg Hub.registry houtline
    exact hregistry.trans h.unmapped
  gone chip hchip := by
    have hmem : chip.outline ∈ hub'.outline.chips := List.mem_map_of_mem hchip
    rw [houtline] at hmem
    obtain ⟨other, hother, heq⟩ := List.mem_map.mp hmem
    have hgone := h.gone other hother
    exact ⟨(congrArg Chip.retired heq).symm.trans hgone.retired,
      (congrArg Chip.initialized heq).symm.trans hgone.initialized,
      (congrArg Chip.registered heq).symm.trans hgone.registered,
      (congrArg Chip.handle heq).symm.trans hgone.handle⟩
  returned := h.returned

theorem cleared_of_even {past : List Dealing} (he : Even .plain hub past)
    (hnone : hub.registry = ∅) : Cleared hub past := by
  have hgone : ∀ chip ∈ hub.chips, Gone chip := by
    intro chip hchip
    obtain ⟨index, hlt, rfl⟩ := List.getElem_of_mem hchip
    have hunmapped : ∀ uid, hub.find? uid ≠ some ⟨index⟩ := by
      intro uid
      rw [find?, hnone]
      exact nofun
    have hmade : hub.Has ⟨index⟩ := hlt
    have h := he.gone hmade hunmapped List.not_mem_nil
    rwa [Hub.chip, List.getElem?_eq_getElem hlt] at h
  refine ⟨hnone, hgone, returned_of_perm (List.perm_iff_count.mpr fun handle => ?_)⟩
  have hhandles : hub.handles = [] :=
    List.flatMap_eq_nil_iff.mpr fun chip hchip => by rw [(hgone chip hchip).handle]; rfl
  have heven := he.even handle
  rw [hhandles] at heven
  exact heven.symm

theorem registry_deliverAll (messages : List Message) (hub : Hub) :
    (deliverAll messages hub).registry = hub.registry := by
  have houtline := congrArg Hub.registry (outline_deliverAll messages hub)
  exact houtline

theorem maintains_retireAll_registry (ids : List ChipId) :
    (retireAll ids).Maintains fun hub => hub.registry = ∅ := by
  induction ids with
  | nil => trivial
  | cons id rest ih =>
    simp only [retireAll, Process.bind_eq, Process.update_bind, Process.modify_bind,
      HubProcess.conceal_bind]
    refine Process.maintains_step (fun _ h => h) fun hub => ?_
    cases (disable id hub).1 with
    | none => exact Process.maintains_step (fun _ h => h) fun _ => ih
    | some handle =>
      exact Process.maintains_ask fun _ => Process.maintains_step (fun _ h => h) fun _ => ih

-- Tearing down begins by unmapping every chip, and maps none afterwards.
theorem exists_teardown : ∃ rest : Hub → HubProcess Nat,
    teardown = .step (fun hub => hub.drain.2) rest ∧
      ∀ hub, (rest hub).Maintains fun hub => hub.registry = ∅ := by
  simp only [teardown, Process.bind_eq, Process.pure_eq, Process.update_bind, Process.log_bind]
  refine ⟨_, rfl, fun hub => (maintains_retireAll_registry _).bind fun _ => ?_⟩
  split <;> trivial

-- Then it retires them and says how many there were.
theorem run_teardown (hrecords : Records around past) (hub : Hub) (t : τ) :
    ∃ t', past t' = past ((retireAll hub.registry.values).run around hub.drain.2 t).2.2 ∧
      teardown.run around hub t = (hub.registry.size,
        ((retireAll hub.registry.values).run around hub.drain.2 t).2.1, t') := by
  have hsize : hub.registry.values.length = hub.registry.size := List.length_map _
  have htail : ∀ (event : Event) (logged : Bool) (count : Nat) (hub : Hub) (t : τ),
      ∃ t', past t' = past t ∧
        (if logged = true then .note event (.done count) else .done count : HubProcess Nat).run
          around hub t = (count, hub, t') := by
    intro event logged count hub t
    cases logged with
    | false => exact ⟨t, rfl, rfl⟩
    | true => exact ⟨around.hear event t, hrecords.hear event t, rfl⟩
  simp only [teardown, Process.bind_eq, Process.pure_eq, Process.update_bind, Process.log_bind,
    Process.run, Process.run_bind, drain]
  rw [← hsize]
  exact htail _ _ _ _ _

-- All that is asked for then is that chips be concealed.
theorem past_retireAll (hrecords : Records around past) (ids : List ChipId) (hub : Hub) (t : τ) :
    ∃ given : List Handle, past ((retireAll ids).run around hub t).2.2 =
      past t ++ given.map fun handle => ⟨.conceal handle, ()⟩ := by
  induction ids generalizing hub t with
  | nil => exact ⟨[], (List.append_nil _).symm⟩
  | cons id rest ih =>
    simp only [retireAll, Process.bind_eq, Process.update_bind, Process.modify_bind,
      HubProcess.conceal_bind, Process.run]
    cases (disable id hub).1 with
    | none => exact ih _ t
    | some handle =>
      obtain ⟨given, hgiven⟩ := ih _ _
      refine ⟨handle :: given, hgiven.trans ?_⟩
      rw [hrecords.answer, List.append_assoc]
      rfl

theorem cleared_of_teardown (hrecords : Records around past) (he : Even .plain hub (past t)) :
    (teardown.run around hub t).1 = hub.registry.size ∧
      Cleared (teardown.run around hub t).2.1 (past (teardown.run around hub t).2.2) ∧
      ∃ given : List Handle, past (teardown.run around hub t).2.2 =
        past t ++ given.map fun handle => ⟨.conceal handle, ()⟩ := by
  obtain ⟨g, rfl, heven⟩ := even_of_run hrecords follows_teardown (he.stay trivial rfl rfl rfl)
  obtain ⟨t', hpast, hrun⟩ := run_teardown hrecords hub t
  have hregistry : (teardown.run around hub t).2.1.registry = ∅ := by
    obtain ⟨rest, hrest, hmaintains⟩ := exists_teardown
    rw [hrest]
    refine (hmaintains hub).run (fun demand hub t hnone => ?_) rfl t
    obtain ⟨messages, hreplies⟩ := hrecords.replies demand hub t
    rw [hreplies, registry_deliverAll, hnone]
  obtain ⟨given, hgiven⟩ := past_retireAll hrecords hub.registry.values hub.drain.2 t
  rw [hrun] at heven hregistry ⊢
  exact ⟨rfl, cleared_of_even heven hregistry, given, hpast.trans hgiven⟩

end Run

end GpioBridge.Hub
