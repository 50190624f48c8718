import CubeCalc.Value
/-!
# Dumps of values
-/

namespace CubeCalc

def Tuple.dump (row : Tuple) : String := Text.dumpList (row.map Member.uniqueName)

def TupleList.dump (l : TupleList) : String :=
  let limit := ("limit", l.limit.dump)
  let storage :=
    match l.storage with
    | .unary members =>
      Text.dumpFields "UnaryTupleList" [("members", Tuple.dump members.toList), limit]
    | .packed rows =>
      Text.dumpFields "ArrayTupleList"
        [("arity", toString rows.arity), ("data", Tuple.dump rows.data.toList),
          ("capacity", toString rows.capacity), limit]
    | .delegating arity rows =>
      Text.dumpFields "DelegatingTupleList"
        [("arity", toString arity), ("rows", Text.dumpList (rows.toList.map Tuple.dump)), limit]
  Text.dumpFields "TupleList"
    [("storage", l.storage.name ++ "(" ++ storage ++ ")"),
      ("mutable", if l.isMutable then "true" else "false"), limit]

def Value.dump : Value → String
  | .null => "Null"
  | .boolean b => "Boolean(" ++ (if b then "true" else "false") ++ ")"
  | .number x => "Number(" ++ displayNumber x ++ ")"
  | .string s => "String(" ++ Text.quoteDump s ++ ")"
  | .member m => "Member(" ++ m.uniqueName ++ ")"
  | .tuple t => "Tuple(" ++ Tuple.dump t ++ ")"
  | .level l => "Level(" ++ l.uniqueName ++ ")"
  | .hierarchy h => "Hierarchy(" ++ h.uniqueName ++ ")"
  | .list tuples => "List(" ++ tuples.dump ++ ")"
  | .iterable source => "Iterable(arity=" ++ toString source.arity ++ ")"

end CubeCalc
