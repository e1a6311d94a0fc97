/-! Blank characters and trimming. -/

namespace VideoPage.Text

/-- The code points with the Unicode property White_Space, as ranges. -/
def blankRanges : List (Nat × Nat) :=
  [(0x09, 0x0d), (0x20, 0x20), (0x85, 0x85), (0xa0, 0xa0), (0x1680, 0x1680),
    (0x2000, 0x200a), (0x2028, 0x2029), (0x202f, 0x202f), (0x205f, 0x205f), (0x3000, 0x3000)]

def isBlank (c : Char) : Bool :=
  blankRanges.any fun (first, last) => first ≤ c.toNat && c.toNat ≤ last

/-- The blanks at the start of a text. -/
def indentation (text : List Char) : List Char := text.takeWhile isBlank

def trimStart (text : List Char) : List Char := text.dropWhile isBlank

def trimEnd (text : List Char) : List Char := (text.reverse.dropWhile isBlank).reverse

/-- The blanks at the end of a text. -/
def ending (text : List Char) : List Char := (text.reverse.takeWhile isBlank).reverse

def trim (text : List Char) : List Char := trimEnd (trimStart text)

end VideoPage.Text
