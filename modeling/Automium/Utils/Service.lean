import Automium.Api.Server

/-!
# `pkg/utils/service.go`
-/

namespace Automium

/-- The color of a phase in a notification. -/
def phaseColor (phase : String) : String :=
  if phase = StatusPhasePending then "#ffff66"
  else if phase = StatusPhaseRunning then "#33ccff"
  else if phase = StatusPhaseCompleted then "#33cc33"
  else if phase = StatusPhaseFailed then "#ff3300"
  else "#ffffff"

def NotifyStatusViaSlack (svcName phase : String) : Ctl (Except Error Unit) :=
  let message := "Got a status update for service: " ++ svcName
  slack { fallback := message, text := message, color := phaseColor phase,
          fields := [("Current status:", phase, false)] }

end Automium
