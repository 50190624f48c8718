import CubeCalc.Json.Value
/-!
# JSON tokens

A text is cut into tokens by a machine that reads one character at a time. It refuses a text at the
first character that no token can hold.
-/

namespace CubeCalc.Json

structure Numeral where
  negative : Bool := false
  /-- All digits before the exponent, read as one whole number. -/
  digits : Nat := 0
  /-- How many of the digits stand behind the point. -/
  places : Nat := 0
  isWhole : Bool := true
  exponentNegative : Bool := false
  exponent : Nat := 0
  deriving DecidableEq, Repr

/-- Whole numbers of 64 bits, signed or not, stay whole, a negative zero apart. -/
def Numeral.toJson (n : Numeral) : Json :=
  let exponent : Int := (if n.exponentNegative then -(n.exponent : Int) else n.exponent) - n.places
  let magnitude := (Decimal.Scientific.mk n.digits exponent).toFloat
  let float := Json.float (if n.negative then -magnitude else magnitude)
  if n.isWhole then
    if n.negative then
      if n.digits ≠ 0 ∧ n.digits ≤ Nat.pow 2 63 then .int (-(n.digits : Int)) else float
    else if n.digits < UInt64.size then .int n.digits
    else float
  else float

inductive Token where
  | openArray
  | closeArray
  | openObject
  | closeObject
  | comma
  | colon
  /-- A text may be well formed and yet stand for no characters. -/
  | text (value? : Option String)
  | numeral (value : Numeral)
  | null
  | bool (value : Bool)
  deriving Repr

namespace Token

inductive NumeralPhase where
  | sign
  | zero
  | whole
  | point
  | fraction
  | mark
  | exponentSign
  | exponent
  deriving DecidableEq, Repr

/-- A text as far as it has been read. -/
structure Draft where
  chars : List Char := []
  /-- A high surrogate that waits for its low one. -/
  high? : Option Nat := none
  /-- Whether a surrogate has stood alone. -/
  isBroken : Bool := false

namespace Draft

def char (d : Draft) (c : Char) : Draft :=
  { chars := c :: d.chars, isBroken := d.isBroken || d.high?.isSome }

def isHigh (code : Nat) : Bool := 0xD800 ≤ code && code < 0xDC00

def isLow (code : Nat) : Bool := 0xDC00 ≤ code && code < 0xE000

/-- Adds a unit of 16 bits. A high surrogate and the low one behind it are one character. -/
def unit (d : Draft) (code : Nat) : Draft :=
  match d.high? with
  | none =>
    if isHigh code then { d with high? := some code }
    else if isLow code then { d with isBroken := true }
    else d.char (Char.ofNat code)
  | some high =>
    if isLow code then
      let point := 0x10000 + (high - 0xD800) * 0x400 + (code - 0xDC00)
      { d with chars := Char.ofNat point :: d.chars, high? := none }
    else { d with high? := none, isBroken := true }

/-- The text, unless a surrogate stands alone in it. -/
def value? (d : Draft) : Option String :=
  if d.isBroken || d.high?.isSome then none else some (String.ofList d.chars.reverse)

end Draft

inductive Mode where
  | between
  | word (rest : List Char) (token : Token)
  | numeral (phase : NumeralPhase) (value : Numeral)
  | text (draft : Draft)
  | escape (draft : Draft)
  | unicode (draft : Draft) (count code : Nat)

structure Machine where
  tokens : List Token
  mode : Mode

def Machine.start : Machine := ⟨[], .between⟩

def Machine.emit (m : Machine) (token : Token) : Machine := ⟨token :: m.tokens, .between⟩

def Machine.enter (m : Machine) (mode : Mode) : Machine := { m with mode := mode }

def isDigit (c : Char) : Bool := '0' ≤ c && c ≤ '9'

def digit (c : Char) : Nat := c.toNat - '0'.toNat

def hexDigit? (c : Char) : Option Nat :=
  if isDigit c then some (digit c)
  else if 'a' ≤ c && c ≤ 'f' then some (c.toNat - 'a'.toNat + 10)
  else if 'A' ≤ c && c ≤ 'F' then some (c.toNat - 'A'.toNat + 10)
  else none

/-- The first character of a token, or a blank before one. -/
def Machine.begin? (m : Machine) (c : Char) : Option Machine :=
  match c with
  | ' ' | '\n' | '\t' | '\r' => some (m.enter .between)
  | '[' => some (m.emit .openArray)
  | ']' => some (m.emit .closeArray)
  | '\x7b' => some (m.emit .openObject)
  | '\x7d' => some (m.emit .closeObject)
  | ',' => some (m.emit .comma)
  | ':' => some (m.emit .colon)
  | '"' => some (m.enter (.text {}))
  | 'n' => some (m.enter (.word ['u', 'l', 'l'] .null))
  | 't' => some (m.enter (.word ['r', 'u', 'e'] (.bool true)))
  | 'f' => some (m.enter (.word ['a', 'l', 's', 'e'] (.bool false)))
  | '-' => some (m.enter (.numeral .sign { negative := true }))
  | '0' => some (m.enter (.numeral .zero {}))
  | c => if isDigit c then some (m.enter (.numeral .whole { digits := digit c })) else none

def NumeralPhase.isComplete : NumeralPhase → Bool
  | .zero | .whole | .fraction | .exponent => true
  | _ => false

/-- The numeral with one more character, if the character belongs to it. -/
def extend? (phase : NumeralPhase) (n : Numeral) (c : Char) : Option (NumeralPhase × Numeral) :=
  let more : Numeral := { n with digits := n.digits * 10 + digit c }
  let placed : Numeral := { more with places := n.places + 1 }
  let powered : Numeral := { n with exponent := n.exponent * 10 + digit c }
  let isMark := c = 'e' || c = 'E'
  match phase with
  | .sign =>
    if c = '0' then some (.zero, n) else if isDigit c then some (.whole, more) else none
  | .zero | .whole =>
    if phase = .whole && isDigit c then some (.whole, more)
    else if c = '.' then some (.point, { n with isWhole := false })
    else if isMark then some (.mark, { n with isWhole := false })
    else none
  | .point => if isDigit c then some (.fraction, placed) else none
  | .fraction =>
    if isDigit c then some (.fraction, placed) else if isMark then some (.mark, n) else none
  | .mark =>
    if c = '+' then some (.exponentSign, n)
    else if c = '-' then some (.exponentSign, { n with exponentNegative := true })
    else if isDigit c then some (.exponent, powered)
    else none
  | .exponentSign | .exponent => if isDigit c then some (.exponent, powered) else none

/-- The character that a single letter stands for behind a backslash. -/
def escaped? (c : Char) : Option Char :=
  match c with
  | '"' | '\\' | '/' => some c
  | 'b' => some (Char.ofNat 8)
  | 'f' => some (Char.ofNat 12)
  | 'n' => some '\n'
  | 'r' => some '\r'
  | 't' => some '\t'
  | _ => none

def Machine.step? (m : Machine) (c : Char) : Option Machine :=
  match m.mode with
  | .between => m.begin? c
  | .word [] token => (m.emit token).begin? c
  | .word (next :: rest) token =>
    if c = next then
      some (if rest.isEmpty then m.emit token else m.enter (.word rest token))
    else none
  | .numeral phase n =>
    match extend? phase n c with
    | some (phase, n) => some (m.enter (.numeral phase n))
    | none => if phase.isComplete then (m.emit (.numeral n)).begin? c else none
  | .text draft =>
    if c = '"' then some (m.emit (.text draft.value?))
    else if c = '\\' then some (m.enter (.escape draft))
    else if c.toNat < 32 then none
    else some (m.enter (.text (draft.char c)))
  | .escape draft =>
    if c = 'u' then some (m.enter (.unicode draft 0 0))
    else (escaped? c).map fun c => m.enter (.text (draft.char c))
  | .unicode draft count code =>
    (hexDigit? c).map fun d =>
      let code := code * 16 + d
      m.enter (if count = 3 then .text (draft.unit code) else .unicode draft (count + 1) code)

def Machine.finish? (m : Machine) : Option (List Token) :=
  match m.mode with
  | .between => some m.tokens.reverse
  | .numeral phase n =>
    if phase.isComplete then some (Token.numeral n :: m.tokens).reverse else none
  | _ => none

def ofText? (s : String) : Option (List Token) :=
  (s.toList.foldlM Machine.step? Machine.start).bind Machine.finish?

end Token

end CubeCalc.Json
