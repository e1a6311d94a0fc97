import VideoPage.Playback.Percent

/-! What a seek bar and the time label beside it show. -/

namespace VideoPage

structure Frame where
  percent : Binary64
  label : String
deriving DecidableEq

/-- How far the bar is filled. -/
def Frame.css (frame : Frame) : String := Percent.css frame.percent

end VideoPage
