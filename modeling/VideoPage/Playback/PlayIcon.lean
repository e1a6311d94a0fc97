/-! The glyph on a play button. -/

namespace VideoPage

/-- The icon names what the button does next. -/
inductive PlayIcon where
  | play
  | pause
deriving DecidableEq

namespace PlayIcon

/-- A paused video offers to play. -/
def forPaused (paused : Bool) : PlayIcon := if paused then play else pause

/-- The markup placed inside the button. -/
def markup : PlayIcon → String
  | play => "<i class=\"fa-solid fa-play\"></i>"
  | pause => "<i class=\"fa-solid fa-pause\"></i>"

end PlayIcon
end VideoPage
