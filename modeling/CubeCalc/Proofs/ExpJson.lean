import CubeCalc.Exp.Json
import Mathlib.Data.List.Nodup
import Mathlib.Data.List.Perm.Basic
/-!
# Expressions survive JSON

An expression is read back as it was written if its numbers are finite and its depths are words of
32 bits. Neither the place of a field among the others nor where an expression stands in another
makes a difference, so that the order in which a map keeps its fields makes none.
-/

namespace CubeCalc

/-! ### The order of fields -/

namespace Json

variable {fields acc : List (String × Json)}

/-- Nothing is changed in a value but the order of the fields of objects. -/
structure IsArrangement (arrange : Json → Json) : Prop where
  null : arrange .null = .null
  bool (b : Bool) : arrange (.bool b) = .bool b
  int (n : Int) : arrange (.int n) = .int n
  float (x : Float) : arrange (.float x) = .float x
  string (s : String) : arrange (.string s) = .string s
  array (items : List Json) : arrange (.array items) = .array (items.map arrange)
  object (fields : List (String × Json)) (hkeys : (fields.map Prod.fst).Nodup) :
    ∃ arranged, arrange (.object fields) = .object arranged ∧
      arranged.Perm (fields.map fun field => (field.1, arrange field.2))

theorem isArrangement_id : IsArrangement fun json => json where
  null := rfl
  bool _ := rfl
  int _ := rfl
  float _ := rfl
  string _ := rfl
  array items := by rw [List.map_id']
  object fields _ := ⟨fields, rfl, by rw [List.map_id']⟩

theorem insertField_perm {key : String} (value : Json) (hkey : key ∉ fields.map Prod.fst) :
    (insertField key value fields).Perm ((key, value) :: fields) := by
  induction fields with
  | nil => exact .refl _
  | cons field rest ih =>
    rw [List.map_cons, List.mem_cons, not_or] at hkey
    rw [insertField, if_neg hkey.1]
    split
    · exact .refl _
    · exact ((ih hkey.2).cons field).trans (.swap _ _ _)

theorem foldl_insertField_perm (hkeys : ((fields ++ acc).map Prod.fst).Nodup) :
    (fields.foldl (fun acc field => insertField field.1 field.2 acc) acc).Perm (fields ++ acc) := by
  induction fields generalizing acc with
  | nil => exact .refl _
  | cons field rest ih =>
    rw [List.cons_append, List.map_cons, List.nodup_cons] at hkeys
    have hfresh : field.1 ∉ acc.map Prod.fst := fun hmem => hkeys.1 (by simp [hmem])
    have hmoved : (rest ++ insertField field.1 field.2 acc).Perm (field :: (rest ++ acc)) :=
      ((insertField_perm field.2 hfresh).append_left rest).trans List.perm_middle
    have hnext : ((rest ++ insertField field.1 field.2 acc).map Prod.fst).Nodup := by
      rw [(hmoved.map Prod.fst).nodup_iff, List.map_cons, List.nodup_cons]
      exact hkeys
    exact (ih hnext).trans hmoved

theorem sortedItems_eq_map (items : List Json) : sortedItems items = items.map sorted := by
  induction items with
  | nil => rfl
  | cons item rest ih => rw [sortedItems, ih, List.map_cons]

theorem sortedFields_eq_map (fields : List (String × Json)) :
    sortedFields fields = fields.map fun field => (field.1, field.2.sorted) := by
  induction fields with
  | nil => rfl
  | cons field rest ih => rw [sortedFields, ih, List.map_cons]

theorem isArrangement_sorted : IsArrangement sorted where
  null := rfl
  bool _ := rfl
  int _ := rfl
  float _ := rfl
  string _ := rfl
  array items := by rw [sorted, sortedItems_eq_map]
  object fields hkeys := by
    refine ⟨_, rfl, ?_⟩
    rw [sortedFields_eq_map]
    have hperm := @foldl_insertField_perm (fields.map fun field => (field.1, field.2.sorted)) []
    rw [List.append_nil] at hperm
    refine hperm ?_
    rw [List.map_map]
    exact hkeys

end Json

/-! ### Names of operators and functions -/

theorem ArithmeticOp.ofName?_jsonName (op : ArithmeticOp) : ofName? op.jsonName = some op := by
  cases op <;> rfl

theorem ComparisonOp.ofName?_jsonName (op : ComparisonOp) : ofName? op.jsonName = some op := by
  cases op <;> rfl

theorem AggregateFunction.ofName?_jsonName (function : AggregateFunction) :
    ofName? function.jsonName = some function := by
  cases function <;> rfl

namespace Exp

/-! ### Reading fields in any order -/

def Part.of (json : Json) : Part := ⟨json, read true json, readList json⟩

namespace Parts

variable {parts parts' : Parts}

theorem only?_eq_some_iff {key : String} {part : Part} : parts.only? key = some part ↔
    ∃ own, (parts.filter fun part => part.1 == key) = [(own, part)] := by
  rw [only?]
  split
  · next field hfield => simp [hfield, Prod.ext_iff]
  · next hmany =>
    refine ⟨nofun, fun ⟨own, hown⟩ => absurd hown (hmany (own, part))⟩

theorem only?_perm (hperm : List.Perm parts parts') (key : String) :
    parts.only? key = parts'.only? key := by
  have hown := hperm.filter fun part => part.1 == key
  ext part
  rw [only?_eq_some_iff, only?_eq_some_iff]
  refine exists_congr fun own => ⟨fun hsole => ?_, fun hsole => ?_⟩
  · rw [hsole, List.singleton_perm] at hown
    exact hown.symm
  · rwa [hsole, List.perm_singleton] at hown

theorem text?_of_only? {key s : String} (honly : parts.only? key = some (.of (.string s))) :
    parts.text? key = some s := by
  rw [text?, honly]
  rfl

theorem depth?_of_only? {key : String} {depth : Nat}
    (honly : parts.only? key = some (.of (.int depth))) :
    parts.depth? key = if depth < UInt32.size then some depth else none := by
  rw [depth?, honly]
  simp only [Part.of, Int.natCast_nonneg, Int.ofNat_lt, true_and, Int.toNat_natCast]

theorem isMissing_perm (hperm : List.Perm parts parts') (key : String) :
    parts.isMissing key = parts'.isMissing key := by
  rw [isMissing, isMissing, hperm.any_eq]

end Parts

theorem ofParts?_perm {parts parts' : Parts} (hperm : List.Perm parts parts') (kind : String) :
    ofParts? kind parts = ofParts? kind parts' := by
  simp only [ofParts?, Parts.exp?, Parts.exps?, Parts.text?, Parts.depth?, Parts.switch?,
    Parts.optional?, Parts.choice?, Parts.only?_perm hperm, Parts.isMissing_perm hperm]

theorem readFields_eq_map (fields : List (String × Json)) :
    readFields fields = fields.map fun field => (field.1, .of field.2) := by
  induction fields with
  | nil => rfl
  | cons field rest ih => rw [readFields, ih, List.map_cons, Part.of]

theorem read_perm {fields fields' : List (String × Json)} (hperm : fields.Perm fields')
    (isNested : Bool) : read isNested (.object fields) = read isNested (.object fields') := by
  have hparts : List.Perm (readFields fields) (readFields fields') := by
    rw [readFields_eq_map, readFields_eq_map]
    exact hperm.map _
  rw [read, read, Parts.only?_perm hparts]
  simp only [ofParts?_perm hparts]

/-! ### Expressions inside expressions -/

/-- The expressions right below an expression. -/
def operands : Exp → List Exp
  | .literal _ | .member _ | .currentMember _ | .currentValue | .members _ | .levelMembers _ _ => []
  | .children e | .parent e | .name e | .level e | .hierarchy e | .count e _ | .not e => [e]
  | .tuple exps | .set exps => exps
  | .crossJoin e f | .filter e f | .order e f _ => [e, f]
  | .arithmetic _ e f | .comparison _ e f | .and e f | .or e f => [e, f]
  | .aggregate _ e value? => e :: value?.toList
  | .iif condition thenExp elseExp => [condition, thenExp, elseExp]

/-- An expression itself and all below it. -/
inductive IsPart (part : Exp) : Exp → Prop where
  | self : IsPart part part
  | inside {e operand : Exp} (hoperand : operand ∈ e.operands) (hpart : IsPart part operand) :
    IsPart part e

/-- What JSON can tell of an expression apart from those below it. -/
def OwnFits : Exp → Prop
  | .literal (.number x) => x.isFinite = true
  | .levelMembers _ depth => depth < UInt32.size
  | _ => True

/-- Its numbers are finite, and its depths are words of 32 bits. -/
def Fits (e : Exp) : Prop := ∀ part : Exp, part.IsPart e → part.OwnFits

theorem fits_iff (e : Exp) : e.Fits ↔ e.OwnFits ∧ ∀ operand ∈ e.operands, operand.Fits := by
  constructor
  · intro hfits
    exact ⟨hfits e .self, fun operand hoperand part hpart => hfits part (.inside hoperand hpart)⟩
  · rintro ⟨hown, hoperands⟩ part hpart
    cases hpart with
    | self => exact hown
    | inside hoperand hpart => exact hoperands _ hoperand part hpart

theorem sizeOf_lt_of_mem_operands {e operand : Exp} (hoperand : operand ∈ e.operands) :
    sizeOf operand < sizeOf e := by
  cases e <;> simp [operands] at hoperand ⊢
  case tuple | set =>
    have := List.sizeOf_lt_of_mem hoperand
    omega
  case aggregate function set value? =>
    obtain rfl | rfl := hoperand
    · omega
    · simp only [Option.some.sizeOf_spec]
      omega
  all_goals
    rcases hoperand with rfl | rfl | rfl <;> omega

theorem operands_induction {P : Exp → Prop}
    (step : ∀ e : Exp, (∀ operand ∈ e.operands, P operand) → P e) (e : Exp) : P e :=
  step e fun operand hoperand =>
    have := sizeOf_lt_of_mem_operands hoperand
    operands_induction step operand
termination_by sizeOf e

/-! ### Reading what was written -/

theorem toJsons_eq_map (exps : List Exp) : toJsons exps = exps.map toJson := by
  induction exps with
  | nil => rfl
  | cons exp rest ih => rw [toJsons, ih, List.map_cons]

variable {arrange : Json → Json}

/-- What the fields of a kind are read as. -/
def arrangedParts (arrange : Json → Json) (kind : String) (fields : List (String × Json)) : Parts :=
  ("kind", .of (.string kind)) :: fields.map fun field => (field.1, .of (arrange field.2))

theorem only?_kind_arrangedParts {kind : String} {fields : List (String × Json)}
    (hkind : "kind" ∉ fields.map Prod.fst) :
    (arrangedParts arrange kind fields).only? "kind" = some (.of (.string kind)) := by
  have hrest : ((fields.map fun field => (field.1, Part.of (arrange field.2))).filter
      fun part => part.1 == "kind") = [] := by
    rw [List.filter_eq_nil_iff]
    intro part hpart hsame
    obtain ⟨field, hfield, rfl⟩ := List.mem_map.mp hpart
    refine hkind ?_
    rw [← beq_iff_eq.mp hsame]
    exact List.mem_map_of_mem hfield
  refine Parts.only?_eq_some_iff.mpr ⟨"kind", ?_⟩
  rw [arrangedParts, List.filter_cons, if_pos (beq_self_eq_true "kind"), hrest]

section Arranged

variable (harrange : Json.IsArrangement arrange)

include harrange

/-- The fields of a kind are read wherever they come to stand. -/
theorem read_arrange_node (kind : String) {fields : List (String × Json)}
    (hkeys : ("kind" :: fields.map Prod.fst).Nodup) (isNested : Bool) :
    read isNested (arrange (node kind fields)) =
      ofParts? kind (arrangedParts arrange kind fields) := by
  obtain ⟨arranged, hnode, hperm⟩ :=
    harrange.object (("kind", .string kind) :: fields) (by simpa using hkeys)
  have hparts : readFields (("kind", .string kind) :: fields.map fun field =>
      (field.1, arrange field.2)) = arrangedParts arrange kind fields := by
    rw [readFields_eq_map, List.map_cons, List.map_map]
    rfl
  rw [node, hnode, read_perm hperm, List.map_cons, harrange.string, read, hparts,
    only?_kind_arrangedParts (List.nodup_cons.mp hkeys).1]
  rfl

theorem exists_arrange_toJson_eq (e : Exp) : ∃ fields, arrange e.toJson = .object fields := by
  have hnode : ∃ fields, e.toJson = .object fields ∧ (fields.map Prod.fst).Nodup := by
    cases e <;> exact ⟨_, by rw [toJson, node], by simp⟩
  obtain ⟨fields, hfields, hkeys⟩ := hnode
  obtain ⟨arranged, harranged, -⟩ := harrange.object fields hkeys
  exact ⟨arranged, hfields ▸ harranged⟩

/-- A number that is not finite is written as null, and no other literal is taken for another. -/
theorem ofJson?_arrange_iff (value : Literal) :
    Literal.ofJson? (arrange value.toJson) = some value ↔ (literal value).OwnFits := by
  cases value with
  | null => simp [Literal.toJson, harrange.null, Literal.ofJson?, OwnFits]
  | boolean b => simp [Literal.toJson, harrange.bool, Literal.ofJson?, OwnFits]
  | string s => simp [Literal.toJson, harrange.string, Literal.ofJson?, OwnFits]
  | number x =>
    rw [Literal.toJson, Json.ofFloat, OwnFits]
    split
    · next hx => simp [harrange.float, Literal.ofJson?, hx]
    · next hx => simp [harrange.null, Literal.ofJson?, hx]

theorem readList_arrange_iff (exps : List Exp) :
    readList (arrange (.array (toJsons exps))) = some exps ↔
      ∀ exp ∈ exps, read true (arrange exp.toJson) = some exp := by
  rw [harrange.array, toJsons_eq_map, List.map_map, readList]
  induction exps with
  | nil => simp [readExps]
  | cons exp rest ih =>
    rw [List.map_cons, readExps, List.forall_mem_cons, ← ih]
    simp [Option.bind_eq_some_iff]

/-- An expression is read back if those right below it are. -/
theorem read_arrange_toJson_step (e : Exp) (isNested : Bool) :
    read isNested (arrange e.toJson) = some e ↔
      e.OwnFits ∧ ∀ operand ∈ e.operands, read true (arrange operand.toJson) = some operand := by
  cases e with
  | literal value =>
    have hread : read isNested (arrange (literal value).toJson) =
        (Literal.ofJson? (arrange value.toJson)).bind fun own => some (.literal own) := by
      rw [toJson, read_arrange_node harrange _ (by simp)]
      simp [arrangedParts, ofParts?, Parts.only?, Part.of]
    rw [hread, ← ofJson?_arrange_iff harrange]
    simp [operands, Option.bind_eq_some_iff]
  | member | currentMember | currentValue | members =>
    rw [toJson, read_arrange_node harrange _ (by simp)]
    simp [arrangedParts, ofParts?, Parts.only?, Part.of, Parts.text?, harrange.string, OwnFits,
      operands]
  | levelMembers hierarchy depth =>
    rw [toJson, read_arrange_node harrange _ (by simp)]
    generalize hparts : arrangedParts arrange _ _ = parts
    have htext : parts.only? "hierarchy" = some (.of (.string hierarchy)) := by
      simp [← hparts, arrangedParts, Parts.only?, harrange.string]
    have hdepth : parts.only? "depth" = some (.of (.int depth)) := by
      simp [← hparts, arrangedParts, Parts.only?, harrange.int]
    have hread : ofParts? "levelMembers" parts =
        (parts.text? "hierarchy").bind fun own =>
          (parts.depth? "depth").bind fun depth => some (levelMembers own depth) := by
      simp [ofParts?]
    rw [hread, Parts.text?_of_only? htext, Parts.depth?_of_only? hdepth]
    by_cases hfits : depth < UInt32.size <;> simp [OwnFits, operands, hfits]
  | children | parent | name | level | hierarchy | not | crossJoin | filter | and | or | iif =>
    rw [toJson, read_arrange_node harrange _ (by simp)]
    simp [arrangedParts, ofParts?, Parts.only?, Part.of, Parts.exp?, Option.bind_eq_some_iff,
      OwnFits, operands]
  | tuple | set =>
    rw [toJson, read_arrange_node harrange _ (by simp)]
    simp [arrangedParts, ofParts?, Parts.only?, Part.of, Parts.exps?, Option.bind_eq_some_iff,
      readList_arrange_iff harrange, OwnFits, operands]
  | order | count =>
    rw [toJson, read_arrange_node harrange _ (by simp)]
    simp [arrangedParts, ofParts?, Parts.only?, Part.of, Parts.exp?, Option.bind_eq_some_iff,
      Parts.switch?, Parts.isMissing, harrange.bool, OwnFits, operands]
  | arithmetic | comparison =>
    rw [toJson, read_arrange_node harrange _ (by simp)]
    simp [arrangedParts, ofParts?, Parts.only?, Part.of, Parts.exp?, Option.bind_eq_some_iff,
      Parts.choice?, harrange.string, ArithmeticOp.ofName?_jsonName,
      ComparisonOp.ofName?_jsonName, OwnFits, operands]
  | aggregate function set value? =>
    rw [toJson, read_arrange_node harrange _ (by simp)]
    cases value? with
    | none =>
      simp [arrangedParts, ofParts?, Parts.only?, Part.of, Parts.exp?, Option.bind_eq_some_iff,
        Parts.choice?, harrange.string, AggregateFunction.ofName?_jsonName, Parts.optional?,
        Parts.isMissing, optionToJson, harrange.null, OwnFits, operands]
    | some value =>
      -- What is written for a value is an object, and so it is not taken for the missing one.
      obtain ⟨fields, hfields⟩ := exists_arrange_toJson_eq harrange value
      simp [arrangedParts, ofParts?, Parts.only?, Part.of, Parts.exp?, Option.bind_eq_some_iff,
        Parts.choice?, harrange.string, AggregateFunction.ofName?_jsonName, Parts.optional?,
        Parts.isMissing, optionToJson, hfields, OwnFits, operands]

theorem read_arrange_toJson_iff (e : Exp) (isNested : Bool) :
    read isNested (arrange e.toJson) = some e ↔ e.Fits := by
  induction e using operands_induction generalizing isNested with
  | step e ih =>
    rw [read_arrange_toJson_step harrange, fits_iff]
    exact and_congr_right fun _ => forall₂_congr fun operand hoperand => ih operand hoperand true

end Arranged

/-- An expression is read back as it was written, in the order of its fields as well as in the order
of their keys, just if its numbers are finite and its depths are words of 32 bits. -/
theorem survives_json (e : Exp) :
    (ofJson? e.toJson = some e ↔ e.Fits) ∧ (ofJson? e.toJson.sorted = some e ↔ e.Fits) :=
  ⟨read_arrange_toJson_iff Json.isArrangement_id e false,
    read_arrange_toJson_iff Json.isArrangement_sorted e false⟩

end Exp

end CubeCalc
