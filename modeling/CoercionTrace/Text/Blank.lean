import CoercionTrace.Text.Ranges

/-!
# White space

The characters with the `White_Space` property, and trimming by them.
-/

namespace CoercionTrace.Text

def blankRanges : Ranges :=
  [(0x9, 0xD), (0x20, 0x20), (0x85, 0x85), (0xA0, 0xA0), (0x1680, 0x1680), (0x2000, 0x200A),
    (0x2028, 0x2029), (0x202F, 0x202F), (0x205F, 0x205F), (0x3000, 0x3000)]

def isBlank (c : Char) : Bool := blankRanges.contains c

def trimLeft (s : List Char) : List Char := s.dropWhile isBlank

def trimRight (s : List Char) : List Char := (s.reverse.dropWhile isBlank).reverse

def trim (s : List Char) : List Char := trimRight (trimLeft s)

def endsWith (s : String) (c : Char) : Bool := (trimRight s.toList).getLast? == some c

end CoercionTrace.Text
