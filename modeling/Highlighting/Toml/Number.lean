/-
The written form of numbers.

The value of a number is never needed, so numbers are only told from other words.
Underscores stand between digits.  A whole number has no leading zero and may have
a sign, unless it is written with another base, where the digits may even be
missing.  Once a whole number has an underscore, only the neighbours of underscores
are looked at, and the digits of every base are good enough for them.
-/
namespace Highlighting.Toml

def isDigit (c : Char) : Bool := '0' ≤ c && c ≤ '9'

def isHexDigit (c : Char) : Bool :=
  isDigit c || ('a' ≤ c && c ≤ 'f') || ('A' ≤ c && c ≤ 'F')

/-! ### Underscores -/

/-- Whether digits stand on both sides of each underscore of a text that follows a character. -/
def gapsFit (p : Char → Bool) (before : Char) : List Char → Bool
  | [] => true
  | '_' :: r => p before && r.head?.any p && gapsFit p '_' r
  | c :: r => gapsFit p c r

/-- Whether digits stand on both sides of each underscore of a text. -/
def underscoresFit (p : Char → Bool) (s : List Char) : Bool := gapsFit p '_' s

/-- Digits and underscores. -/
def isGrouped (p : Char → Bool) (s : List Char) : Bool := s.all fun c => p c || c == '_'

/-- What follows a sign, if there is one. -/
def unsigned : List Char → List Char
  | '+' :: r => r
  | '-' :: r => r
  | s => s

/-! ### Whole numbers -/

/-- What follows the letter of a base. -/
def isBased (p : Char → Bool) (s : List Char) : Bool := isGrouped p s && underscoresFit p s

/-- One or more decimal digits, the first of several not being zero. -/
def isDecimal (s : List Char) : Bool :=
  !s.isEmpty && s.all isDigit && (s.length == 1 || s.head? != some '0')

/-- A whole number with an underscore behind its first digits. -/
def isDivided (s : List Char) : Bool :=
  let u := unsigned s
  let rest := u.dropWhile isDigit
  u.head? != some '0' && rest.head? == some '_' && underscoresFit isHexDigit u &&
    rest.all fun c => !(c == ' ' || c == '.' || c == 'e' || c == 'E')

def isInteger : List Char → Bool
  | '0' :: 'x' :: r => isBased isHexDigit r
  | '0' :: 'o' :: r => isBased (fun c => '0' ≤ c && c ≤ '7') r
  | '0' :: 'b' :: r => isBased (fun c => c == '0' || c == '1') r
  | s => isDecimal (unsigned s) || isDivided s

/-! ### Fractions and exponents -/

/-- The letter and the digits of an exponent. -/
def isExponent : List Char → Bool
  | c :: r =>
    let digits := unsigned r
    (c == 'e' || c == 'E') && isGrouped isDigit digits && digits.any isDigit
  | [] => false

/-- What may follow the whole part of a number with a fraction or an exponent. -/
def isFraction : List Char → Bool
  | '.' :: r =>
    let digits := r.takeWhile fun c => isDigit c || c == '_'
    let rest := r.dropWhile fun c => isDigit c || c == '_'
    digits.any isDigit && (rest.isEmpty || isExponent rest)
  | s => isExponent s

/-- The whole part of a number with a fraction or an exponent. -/
def isMantissa (s : List Char) : Bool :=
  let digits := s.filter isDigit
  !digits.isEmpty && (digits.length == 1 || s.head? != some '0')

def isFloat (s : List Char) : Bool :=
  let u := unsigned s
  let whole := u.takeWhile fun c => isDigit c || c == '_'
  let rest := u.dropWhile fun c => isDigit c || c == '_'
  u == ['i', 'n', 'f'] || u == ['n', 'a', 'n'] ||
    (underscoresFit isDigit u && isMantissa whole && isFraction rest)

def isNumber (s : List Char) : Bool := isInteger s || isFloat s

end Highlighting.Toml
