import GpioBridge.Service.Basic

namespace GpioBridge

-- A demand that has nothing to do with messages or with the hub.
def ServiceDemand.isClerical : ServiceDemand → Bool
  | clock | writeFile _ _ | renameFile _ _ => true
  | hub _ | receive | awaitWorker => false

namespace Service

open Process

variable {α β : Type}

-- The process is about nothing but reports.
def Clerical : ServiceProcess α → Prop
  | .done _ => True
  | .step change next =>
    (∀ service, ∃ reporter, change service = { service with reporter }) ∧
      ∀ service, Clerical (next service)
  | .note _ next => Clerical next
  | .ask demand next => demand.isClerical = true ∧ ∀ answer, Clerical (next answer)

theorem Clerical.bind {p : ServiceProcess α} {f : α → ServiceProcess β} (hp : Clerical p)
    (hf : ∀ a, Clerical (f a)) : Clerical (p.bind f) := by
  induction p with
  | done a => exact hf a
  | step change next ih => exact ⟨hp.1, fun service => ih service (hp.2 service)⟩
  | note event next ih => exact ih hp
  | ask demand next ih => exact ⟨hp.1, fun answer => ih answer (hp.2 answer)⟩

theorem clerical_look {next : Service → ServiceProcess α} (h : ∀ service, Clerical (next service)) :
    Clerical (.step id next) :=
  ⟨fun service => ⟨service.reporter, rfl⟩, h⟩

theorem clerical_publish : Clerical publish := by
  simp only [publish, bind_eq, pure_eq, ask_bind, done_bind, modify_bind, get_bind, log_bind]
  refine ⟨rfl, fun time => ⟨fun service => ⟨_, rfl⟩, fun _ => clerical_look fun service => ?_⟩⟩
  split
  · trivial
  refine ⟨rfl, fun (written : Except FileFault Unit) => ?_⟩
  cases written with
  | error fault => trivial
  | ok =>
    refine ⟨rfl, fun (renamed : Except FileFault Unit) => ?_⟩
    cases renamed <;> trivial

theorem clerical_refresh : Clerical refresh := by
  simp only [refresh, bind_eq, pure_eq, get_bind]
  refine clerical_look fun service => ?_
  split
  · exact clerical_publish
  refine ⟨rfl, fun time => clerical_look fun service => ?_⟩
  split
  · trivial
  · exact clerical_publish

theorem clerical_tolerate {attempt : ServiceProcess (Except FileFault Unit)}
    (h : Clerical attempt) : Clerical (tolerate attempt) := by
  refine h.bind fun result => ?_
  cases result <;> trivial

end Service

end GpioBridge
