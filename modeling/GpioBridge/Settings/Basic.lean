import GpioBridge.Event

namespace GpioBridge

-- The settings of a service; times are in milliseconds.
structure Settings where
  logLevel : Severity := .info
  serviceName : String := "vgpio"
  replyTimeout : UInt64 := 2000
  maxChips : Option UInt64 := none
  listen : String := "127.0.0.1:47100"
  peers : List String := []
  -- How long the service waits for a message before it looks whether it should go on.
  pollInterval : UInt64 := 100
  reportPath : Option String := none
  -- How long a report stays current.
  reportInterval : UInt64 := 1000
  deriving DecidableEq, Repr, Inhabited

def Settings.defaultPath : String := "/etc/vgpio/vgpio.toml"

def releaseVersion : String := "0.1.0"

end GpioBridge
