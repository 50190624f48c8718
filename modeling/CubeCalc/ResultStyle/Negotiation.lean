import CubeCalc.Failure
/-!
# Negotiating result styles

A caller lists the styles that it accepts, the best first, and gets the first one that a calc can
meet.
-/

namespace CubeCalc

/-- What has to be done to a result so that it meets a style. -/
inductive Adaptation where
  | asIs
  | materialize
  | copy
  deriving DecidableEq, Repr

def Adaptation.name : Adaptation → String
  | .asIs => "AsIs"
  | .materialize => "Materialize"
  | .copy => "Copy"

namespace ResultStyle

/-- How a calc of a style meets a requested one, if it can. -/
def adaptation? (actual requested : ResultStyle) : Option Adaptation :=
  match requested, actual with
  | .any, _ | _, .any => some .asIs
  | .mutableList, .mutableList | .list, .list | .iterable, .iterable | .value, .value => some .asIs
  | .list, .mutableList => some .asIs
  | .list, .iterable | .mutableList, .iterable => some .materialize
  | .mutableList, .list => some .copy
  | .iterable, .list | .iterable, .mutableList => some .asIs
  | _, _ => none

/-- A request for any style leaves a calc its own. -/
def settled (actual requested : ResultStyle) : ResultStyle :=
  if requested = .any then actual else requested

def negotiate (actual : ResultStyle) (requested : List ResultStyle) :
    Outcome (ResultStyle × Adaptation) :=
  let met := requested.findSome? fun style =>
    (actual.adaptation? style).map fun adaptation => (actual.settled style, adaptation)
  match met with
  | some result => .ok result
  | none => fail (.resultStyle requested actual)

end ResultStyle

end CubeCalc
