/-! White space in the sense of Unicode's `White_Space` property: trimming, and the words of a
text. -/
namespace ContractPipeline.Text

def isBlank (c : Char) : Bool :=
  let n := c.toNat
  (0x09 ≤ n && n ≤ 0x0D) || n == 0x20 || n == 0x85 || n == 0xA0 || n == 0x1680 ||
    (0x2000 ≤ n && n ≤ 0x200A) || n == 0x2028 || n == 0x2029 || n == 0x202F || n == 0x205F ||
    n == 0x3000

def trim (text : List Char) : List Char :=
  ((text.dropWhile isBlank).reverse.dropWhile isBlank).reverse

/-- One character before the words that follow it: the word it may extend, and the others. -/
def beforeWords (c : Char) : List Char × List (List Char) → List Char × List (List Char)
  | (word, words) =>
    if isBlank c then ([], if word.isEmpty then words else word :: words)
    else (c :: word, words)

/-- The maximal runs without white space, in order. -/
def words (text : List Char) : List (List Char) :=
  let (word, words) := text.foldr beforeWords ([], [])
  if word.isEmpty then words else word :: words

def unwords (words : List (List Char)) : List Char :=
  List.intercalate [' '] words

end ContractPipeline.Text
