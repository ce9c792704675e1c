import RecordMap.Text.Case

/-! Between class names in capitals and table names in lower case with underscores. -/

namespace RecordMap.Naming

def isCapital (c : Char) : Bool := 'A' ≤ c && c ≤ 'Z'

def isSmall (c : Char) : Bool := 'a' ≤ c && c ≤ 'z'

/-- An underscore before the last capital of a run, where a small letter follows: `HTMLPage` becomes
`HTML_Page`. -/
def splitAcronyms : Text → Text
  | a :: b :: c :: cs =>
    if isCapital a && isCapital b && isSmall c then a :: '_' :: splitAcronyms (b :: c :: cs)
    else a :: splitAcronyms (b :: c :: cs)
  | t => t

/-- An underscore between a small letter or digit and a capital: `blogPost` becomes `blog_Post`. -/
def splitCapitals : Text → Text
  | a :: b :: cs =>
    if (isSmall a || Text.isDecimal a) && isCapital b then a :: '_' :: splitCapitals (b :: cs)
    else a :: splitCapitals (b :: cs)
  | t => t

def dashToUnderscore (c : Char) : Char := if c = '-' then '_' else c

def snakeCase (word : Text) : Text :=
  Text.lower ((splitCapitals (splitAcronyms word)).map dashToUnderscore)

/-- Raises each character that follows an underscore and drops the underscore, line feeds apart. -/
def joinWords : Text → Text
  | '_' :: c :: cs =>
    if c = '\n' then '_' :: c :: joinWords cs else Text.upperChar c ++ joinWords cs
  | c :: cs => c :: joinWords cs
  | [] => []

/-- Raises the first character as well, which is kept even if it is an underscore. -/
def pascalCase : Text → Text
  | [] => []
  | c :: cs => if c = '\n' then c :: joinWords cs else Text.upperChar c ++ joinWords cs

end RecordMap.Naming
