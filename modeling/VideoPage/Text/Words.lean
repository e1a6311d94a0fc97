/-! Words of a text, which only spaces separate. -/

namespace VideoPage.Text

def words (text : String) : List String :=
  ((text.toList.splitOn ' ').filter (!·.isEmpty)).map String.ofList

/-- Words with a space between any two. -/
def unwords (words : List String) : String := " ".intercalate words

end VideoPage.Text
