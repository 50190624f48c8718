import CubeCalc.Tuple.List
/-!
# Products of lists

The cross join of two lists pairs every tuple of the left one with every tuple of the right one, and
is enumerated while it is walked.
-/

namespace CubeCalc

/-- The first members of a row, if there are enough. -/
def readColumns (arity : Nat) (row : Tuple) : Outcome Tuple :=
  if arity ≤ row.length then .ok (row.take arity) else violate .outOfRange

/-- The number of pairs, as far as a word can count them. -/
def productLength (left right : TupleList) : Nat := saturated (left.length * right.length)

/-- Every left row followed by every right row, the left one changing last. -/
def productRows (left right : TupleList) : List Tuple :=
  left.rows.flatMap fun l => right.rows.map fun r => l.take left.arity ++ r.take right.arity

structure ProductCursor where
  left : TupleList
  right : TupleList
  leftIndex : Nat
  rightIndex : Nat
  started : Bool

namespace ProductCursor

def start (left right : TupleList) : ProductCursor := ⟨left, right, 0, 0, false⟩

def arity (c : ProductCursor) : Nat := c.left.arity + c.right.arity

/-- The position after the current one. The right side starts over for each left row. -/
def advance (c : ProductCursor) : ProductCursor :=
  if c.rightIndex + 1 = c.right.length then
    { c with leftIndex := c.leftIndex + 1, rightIndex := 0 }
  else { c with rightIndex := c.rightIndex + 1 }

def forward (c : ProductCursor) : Outcome Bool × ProductCursor :=
  if c.right.isEmpty || c.left.length ≤ c.leftIndex then (.ok false, c)
  else if !c.started then (.ok true, { c with started := true })
  else (.ok (c.advance.leftIndex < c.left.length), c.advance)

def member (c : ProductCursor) (column : Nat) : Outcome Member :=
  if column < c.left.arity then Indexed.member c.left column c.leftIndex
  else Indexed.member c.right (column - c.left.arity) c.rightIndex

instance : Cursor ProductCursor where
  arity := arity
  forward := forward
  member := member
  current c := (List.range c.arity).mapM c.member

end ProductCursor

end CubeCalc
