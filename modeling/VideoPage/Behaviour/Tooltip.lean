import VideoPage.Binary64.Arithmetic
import VideoPage.Trace.Event

/-! A tooltip, which is shown while the pointer is over its trigger. -/

namespace VideoPage

structure Tooltip where
  id : ComponentId
  text : String
  visible : Bool := false
deriving DecidableEq

namespace Tooltip

def hover (tooltip : Tooltip) (inside : Bool) : Tooltip := { tooltip with visible := inside }

/-- The action of showing or hiding. -/
def action (inside : Bool) : ActionKind := if inside then .showTooltip else .hideTooltip

/-- What the pointer's coming or going reports, which is nothing when the tooltip is
already shown or hidden. A tooltip has no video, so the time and the rate are zero. -/
def hoverEvents (tooltip : Tooltip) (inside : Bool) : List Event :=
  if tooltip.visible = inside then [] else [.action tooltip.id (action inside) 0 0]

end Tooltip
end VideoPage
