import GpioBridge.Hub.Lifecycle

namespace GpioBridge.Hub

-- Sends a message that nobody depends on: that it could not be sent is only logged.
def sendBestEffort (m : Message) : HubProcess Unit := do
  match ← HubProcess.send m with
  | .ok () => return ()
  | .error .noSubscribers => .log ⟨.debug, .service, s!"No bridge listening for {m.kind}", []⟩
  | .error fault => .log ⟨.warn, .service, s!"Failed to send {m.kind}: {fault.message}", []⟩

-- Carries out a control message and acknowledges it; any other message is ignored.
def answerControl : Message → HubProcess Unit
  | .init uid lineCount label names => do
    let result ← register { uid, label, lineCount, names }
    match result with
    | .ok _ => pure ()
    | .error fault =>
      .log ⟨.warn, .service, s!"Init of chip uid {uid} failed: {fault.message}", []⟩
    sendBestEffort (.initAck uid (ackStatus result))
  | .deinit uid => do
    let result ← withdraw uid
    match result with
    | .ok () => pure ()
    | .error fault =>
      .log ⟨.warn, .service, s!"Deinit of chip uid {uid} failed: {fault.message}", []⟩
    sendBestEffort (.deinitAck uid (ackStatus result) .current)
  | other => .log ⟨.debug, .service, s!"Control worker ignoring {other.kind}", []⟩

end GpioBridge.Hub
