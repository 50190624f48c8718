import CubeCalc.Failure
import CubeCalc.Text.Dump
/-!
# Row limits

A limit on the number of tuples that a list may hold. It is the guard against cross joins that grow
out of hand.
-/

namespace CubeCalc

/-- Sizes and indexes are words of 64 bits. -/
def wordBound : Nat := UInt64.size

/-- Arithmetic on sizes stops at the greatest word. -/
def saturated (n : Nat) : Nat := min n (wordBound - 1)

structure RowLimit where
  rows? : Option Nat
  deriving DecidableEq, Repr

namespace RowLimit

def unbounded : RowLimit := ⟨none⟩

/-- Zero and the negative numbers stand for no limit. -/
def ofInt (limit : Int) : RowLimit := if limit ≤ 0 then unbounded else ⟨some limit.toNat⟩

/-- The number of member slots that as many rows take up, if it is a word. -/
def ceiling? (limit : RowLimit) (arity : Nat) : Option Nat :=
  limit.rows?.bind fun rows => if rows * arity < wordBound then some (rows * arity) else none

def check (limit : RowLimit) (attempted : Nat) : Outcome Unit :=
  match limit.rows? with
  | some rows => if attempted > rows then fail (.limitExceeded attempted rows) else .ok ()
  | none => .ok ()

def clamp (limit : RowLimit) (rows : Nat) : Nat :=
  match limit.rows? with
  | some most => min rows most
  | none => rows

def dump (limit : RowLimit) : String :=
  Text.dumpFields "RowLimit" [("rows", Text.dumpOption (limit.rows?.map toString))]

end RowLimit

end CubeCalc
