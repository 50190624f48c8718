import CubeCalc.Proofs.Forest
import CubeCalc.Proofs.Iteration
import CubeCalc.Proofs.StableSort
import CubeCalc.Proofs.TotalOrder
/-!
# Ordering sets

An ordered set is sorted by the key that each tuple has in the caller's context overridden by that
tuple, missing keys before all numbers, and tuples with one key stay in the order of the set in both
directions. Keys are kept by tuple, so that of tuples which compare as equal the last one's key
counts for all. These are one tuple unless different members go by one unique name.
-/

namespace CubeCalc

open Outcome

/-! ### Keys -/

/-- A missing key comes before all numbers. -/
inductive KeyPrecedes : Option Double → Option Double → Prop
  | missing (y : Double) : KeyPrecedes none (some y)
  | numbers {x y : Double} (h : x.Precedes y) : KeyPrecedes (some x) (some y)

/-- One key has to come before another one in some direction. -/
def KeyPrecedesIn (descending : Bool) (a b : Option Double) : Prop :=
  if descending then KeyPrecedes b a else KeyPrecedes a b

/-- The place of a key among the integers. -/
def keyPlace : Option Double → Int
  | none => -2 ^ 63 - 1
  | some x => x.totalKey

variable {a b : Option Double}

theorem compareKeys_eq (a b : Option Double) :
    compareKeys a b = compare (keyPlace a) (keyPlace b) := by
  cases a with
  | none =>
    cases b with
    | none => exact (Int.compare_eq_eq.mpr rfl).symm
    | some y =>
      have hy := y.totalKey_and_signed_cases
      have hbound := y.magnitude_lt
      exact (Int.compare_eq_lt.mpr (by simp only [keyPlace]; omega)).symm
  | some x =>
    cases b with
    | none =>
      have hx := x.totalKey_and_signed_cases
      have hbound := x.magnitude_lt
      exact (Int.compare_eq_gt.mpr (by simp only [keyPlace]; omega)).symm
    | some y => rfl

theorem keyPrecedes_iff : KeyPrecedes a b ↔ keyPlace a < keyPlace b := by
  rw [← Int.compare_eq_lt, ← compareKeys_eq]
  constructor
  · rintro (_ | hxy)
    · rfl
    · exact Double.totalCompare_eq_lt_iff.mpr hxy
  · intro h
    cases a with
    | none =>
      cases b with
      | none => cases h
      | some y => exact .missing y
    | some x =>
      cases b with
      | none => cases h
      | some y => exact .numbers (Double.totalCompare_eq_lt_iff.mp h)

/-! ### Sorting by keys -/

/-- Some rows sorted by keys, rows with one key in the order that they had. -/
structure SortsBy (descending : Bool) (keyOf : Tuple → Option Double) (rows sorted : List Tuple) :
    Prop where
  perm : sorted.Perm rows
  ordered : sorted.Pairwise fun a b => ¬ KeyPrecedesIn descending (keyOf b) (keyOf a)
  stable : ∀ chosen : Tuple → Bool,
    (∀ a ∈ rows, ∀ b ∈ rows, chosen a = true → chosen b = true → keyOf a = keyOf b) →
      sorted.filter chosen = rows.filter chosen

namespace SortsBy

variable {descending : Bool} {keyOf keyOf' : Tuple → Option Double} {rows sorted : List Tuple}

theorem congr (hsorted : SortsBy descending keyOf rows sorted)
    (hkeys : ∀ row ∈ rows, keyOf row = keyOf' row) : SortsBy descending keyOf' rows sorted where
  perm := hsorted.perm
  ordered := by
    refine hsorted.ordered.imp_of_mem fun {a b} ha hb hab => ?_
    rwa [← hkeys a (hsorted.perm.subset ha), ← hkeys b (hsorted.perm.subset hb)]
  stable chosen hchosen := by
    refine hsorted.stable chosen fun a ha b hb hachosen hbchosen => ?_
    rw [hkeys a ha, hkeys b hb]
    exact hchosen a ha b hb hachosen hbchosen

/-- Merging sorts by whatever puts rows into a line of integers. -/
theorem mergeSort {le : Tuple → Tuple → Bool} (place : Tuple → Int)
    (hle : ∀ a b, le a b = decide (place a ≤ place b))
    (hplace : ∀ a b, place a < place b ↔ KeyPrecedesIn descending (keyOf a) (keyOf b)) :
    SortsBy descending keyOf rows (rows.mergeSort le) := by
  have htrans : ∀ a b c : Tuple, le a b = true → le b c = true → le a c = true := by
    intro a b c hab hbc
    rw [hle, decide_eq_true_iff] at hab hbc ⊢
    exact Int.le_trans hab hbc
  have htotal : ∀ a b : Tuple, (le a b || le b a) = true := by
    intro a b
    rw [hle, hle, Bool.or_eq_true, decide_eq_true_iff, decide_eq_true_iff]
    exact Int.le_total _ _
  refine ⟨List.mergeSort_perm rows le, ?_, fun chosen hchosen => ?_⟩
  · refine (List.pairwise_mergeSort htrans htotal rows).imp fun {a b} hab => ?_
    rw [hle, decide_eq_true_iff] at hab
    rw [← hplace]
    exact Int.not_lt.mpr hab
  · -- The chosen rows are in order as they stand, since they have one key.
    refine filter_mergeSort htrans htotal (List.pairwise_of_forall_mem_list fun a ha b hb => ?_)
    obtain ⟨ha, hachosen⟩ := List.mem_filter.mp ha
    obtain ⟨hb, hbchosen⟩ := List.mem_filter.mp hb
    rw [hle, decide_eq_true_iff, ← Int.not_lt, hplace,
      hchosen a ha b hb hachosen hbchosen, KeyPrecedesIn]
    simp [keyPrecedes_iff]

end SortsBy

/-! ### Keys by tuple -/

/-- The last of some rows that compares as equal to a row. -/
def lastLike (rows : List Tuple) (row : Tuple) : Tuple :=
  (rows.reverse.find? fun other => other == row).getD row

variable {rows : List Tuple} {row : Tuple}

theorem lastLike_spec (hrow : row ∈ rows) : lastLike rows row ∈ rows ∧
    rows.reverse.find? (fun other => other == row) = some (lastLike rows row) ∧
    (lastLike rows row == row) = true := by
  have : ReflBEq Member := ⟨fun {m} => m.beq_refl⟩
  have hsome : (rows.reverse.find? fun other => other == row).isSome = true :=
    List.find?_isSome.mpr ⟨row, List.mem_reverse.mpr hrow, beq_self_eq_true row⟩
  obtain ⟨last, hlast⟩ := Option.isSome_iff_exists.mp hsome
  have hsame : lastLike rows row = last := by
    rw [lastLike, hlast, Option.getD_some]
  have hlike := List.find?_some hlast
  rw [hsame]
  exact ⟨List.mem_reverse.mp (List.mem_of_find?_eq_some hlast), hlast, hlike⟩

theorem SortKeys.keyOf_eq (keyOf : Tuple → Option Double) (hrow : row ∈ rows) :
    SortKeys.keyOf (rows.map fun row => (row, keyOf row)).reverse row =
      keyOf (lastLike rows row) := by
  obtain ⟨-, hfind, -⟩ := lastLike_spec hrow
  rw [SortKeys.keyOf, ← List.map_reverse, List.find?_map]
  change Option.bind (Option.map _ (rows.reverse.find? fun other => other == row)) _ = _
  rw [hfind]
  rfl

theorem SortKeys.sortsBy_mergeSort (keys : SortKeys) (descending : Bool) (rows : List Tuple) :
    SortsBy descending keys.keyOf rows
      (rows.mergeSort fun a b => (keys.compare descending a b).isLE) := by
  cases descending with
  | false =>
    refine .mergeSort (fun row => keyPlace (keys.keyOf row)) (fun a b => ?_) fun a b => ?_
    · rw [SortKeys.compare, compareKeys_eq, Bool.eq_iff_iff, decide_eq_true_iff]
      exact Int.isLE_compare
    · exact keyPrecedes_iff.symm
  | true =>
    refine .mergeSort (fun row => -keyPlace (keys.keyOf row)) (fun a b => ?_) fun a b => ?_
    · rw [SortKeys.compare, compareKeys_eq, Bool.eq_iff_iff, decide_eq_true_iff, Int.neg_le_neg_iff]
      simp only [if_true, Int.compare_swap]
      exact Int.isLE_compare
    · rw [KeyPrecedesIn, if_pos rfl, keyPrecedes_iff]
      omega

/-! ### Evaluation -/

namespace Calc

/-- The list that a set comes to, evaluated in a context of its own. -/
def listIn (set : Calc) (simplify : Bool) (ctx : Context) : Outcome TupleList := do
  (← set.evaluate (← set.contextFor simplify ctx)).toList

/-- The key of a tuple in the caller's context overridden by it. -/
def keyAt (key : Calc) (ctx : Context) (row : Tuple) : Outcome (Option Double) := do
  (← key.evaluateAt ctx row).toNumber

variable {set key : Calc} {simplify descending : Bool} {ctx : Context} {l : TupleList}
  {names : List String}

/-- All keys are read before anything is sorted. -/
theorem evaluate_order_eq (hset : set.listIn simplify ctx = .ok l)
    (hnames : (TupleSource.list l).Names names) (key : Calc) (descending : Bool) :
    evaluate ctx (.order set key descending simplify) = (do
      let entries ← l.rows.mapM fun row => (key.keyAt ctx row).map fun k => (row, k)
      return .list (← l.copy.sortBy (SortKeys.compare entries.reverse descending))) := by
  have hvisit : ∀ row ∈ l.rows, ∀ keys : SortKeys, (ctx.moveAll row >>= fun here => do
      let value ← (← evaluate here key).toNumber
      return (← readColumns l.arity row, value) :: keys) =
      (key.keyAt ctx row).map (fun k => (row, k)) >>= fun entry => pure (entry :: keys) := by
    intro row hrow keys
    have hlength : row.length = l.arity := hnames.length_eq hrow
    have hread : readColumns l.arity row = .ok row := by
      rw [readColumns, ← hlength, if_pos (Nat.le_refl _), List.take_length]
    rw [hread, Outcome.bind_map]
    simp only [keyAt, evaluateAt, bind_assoc]
    rfl
  rw [listIn, ← bind_assoc] at hset
  rw [evaluate, ← bind_assoc, ← bind_assoc, hset, Outcome.ok_bind, hnames.walk_eq]
  change ((l.rows.foldlM (fun keys row => _) []) >>= _) = _
  rw [foldlM_congr [] hvisit, foldlM_bind_pure _ fun keys entry => entry :: keys, Outcome.bind_map]
  have hreverse : ∀ entries : SortKeys,
      entries.foldl (fun keys entry => entry :: keys) [] = entries.reverse := by
    intro entries
    rw [List.foldl_flip_cons_eq_append', List.append_nil]
  simp only [hreverse]

/-- The keys of all tuples, one of which may fail. -/
theorem evaluate_order_sorts (hset : set.listIn simplify ctx = .ok l)
    (hnames : (TupleSource.list l).Names names) {keyOf : Tuple → Option Double}
    (hkeys : ∀ row ∈ l.rows, key.keyAt ctx row = .ok (keyOf row)) (descending : Bool) :
    ∃ sorted : TupleList, evaluate ctx (.order set key descending simplify) = .ok (.list sorted) ∧
      sorted.isMutable = true ∧ sorted.arity = l.arity ∧
      SortsBy descending (fun row => keyOf (lastLike l.rows row)) l.rows sorted.rows := by
  have hentries : (l.rows.mapM fun row => (key.keyAt ctx row).map fun k => (row, k)) =
      .ok (l.rows.map fun row => (row, keyOf row)) := by
    refine mapM_eq_ok fun row hrow => ?_
    rw [hkeys row hrow]
    rfl
  let keys : SortKeys := (l.rows.map fun row => (row, keyOf row)).reverse
  have hsorted := keys.sortsBy_mergeSort descending l.rows
  have hrows := Storage.rows_refill hsorted.perm fun row hrow => hnames.length_eq hrow
  refine ⟨{ l.copy with storage := l.storage.refill (l.rows.mergeSort fun a b =>
    (keys.compare descending a b).isLE) }, ?_, rfl, l.storage.arity_refill _, ?_⟩
  · rw [evaluate_order_eq hset hnames, hentries]
    rfl
  · change SortsBy _ _ l.rows (l.storage.refill _).rows
    rw [hrows]
    exact hsorted.congr fun row hrow => SortKeys.keyOf_eq keyOf hrow

/-- A set whose tuples name the same hierarchies is sorted, stably and in either direction, by the
keys in the caller's context overridden by each tuple, where the key of the last one counts for all
tuples that compare as equal. Each tuple's own key does if such tuples have one key. The result is a
list that may be changed, or the failure of the first tuple whose key fails. -/
theorem order_sorts_by_keys (hset : set.listIn simplify ctx = .ok l)
    (hnames : (TupleSource.list l).Names names) (key : Calc) (descending : Bool) :
    (∀ keyOf : Tuple → Option Double, (∀ row ∈ l.rows, key.keyAt ctx row = .ok (keyOf row)) →
      ∃ sorted : TupleList,
        evaluate ctx (.order set key descending simplify) = .ok (.list sorted) ∧
        sorted.isMutable = true ∧ sorted.arity = l.arity ∧
        SortsBy descending (fun row => keyOf (lastLike l.rows row)) l.rows sorted.rows ∧
        ((∀ a ∈ l.rows, ∀ b ∈ l.rows, (a == b) = true → keyOf a = keyOf b) →
          SortsBy descending keyOf l.rows sorted.rows)) ∧
    ∀ (before after : List Tuple) (row : Tuple) (failure : Failure),
      l.rows = before ++ row :: after → (∀ other ∈ before, ∃ k, key.keyAt ctx other = .ok k) →
      key.keyAt ctx row = .error failure →
      evaluate ctx (.order set key descending simplify) = .error failure := by
  constructor
  · intro keyOf hkeys
    obtain ⟨sorted, heval, hmutable, harity, hsorted⟩ :=
      evaluate_order_sorts hset hnames hkeys descending
    refine ⟨sorted, heval, hmutable, harity, hsorted, fun hsame => ?_⟩
    refine hsorted.congr fun row hrow => ?_
    obtain ⟨hlast, -, hlike⟩ := lastLike_spec hrow
    exact hsame _ hlast row hrow hlike
  · intro before after row failure hrows hbefore hfailure
    have hentries : (l.rows.mapM fun row => (key.keyAt ctx row).map fun k => (row, k)) =
        .error failure := by
      rw [hrows]
      refine mapM_eq_error (fun other hother => ?_) (by rw [hfailure]; rfl)
      obtain ⟨k, hk⟩ := hbefore other hother
      exact ⟨(other, k), by rw [hk]; rfl⟩
    rw [evaluate_order_eq hset hnames, hentries]
    rfl

end Calc

/-! ### Towns by sales -/

namespace Sales

open HierarchyBuilder

def towns : TupleList := ⟨.unary town.members.toArray, false, .unbounded⟩

/-- One sale in Oslo and none in Bergen. -/
def counted : Context :=
  ⟨.sales, ⟨2, [([firstYear, oslo], .number 1)]⟩, [firstYear, oslo], false⟩

def counts (row : Tuple) : Option Double := if row.any (· == oslo) then some 1 else none

/-- The town without a sale comes first. -/
theorem towns_ordered : ∃ sorted : TupleList,
    Calc.evaluate counted (.order (.hierarchyMembers town .unbounded) .currentValue false true) =
      .ok (.list sorted) ∧ sorted.isMutable = true ∧
    SortsBy false counts [[oslo], [bergen]] sorted.rows := by
  have hset : (Calc.hierarchyMembers town .unbounded).listIn true counted = .ok towns := rfl
  have hnames : (TupleSource.list towns).Names ["Town"] := ⟨rfl, by decide⟩
  have hkeys : ∀ row ∈ towns.rows, Calc.currentValue.keyAt counted row = .ok (counts row) := by
    change ∀ row ∈ [[oslo], [bergen]], _
    simp only [List.forall_mem_cons, List.not_mem_nil, false_imp_iff, implies_true, and_true]
    exact ⟨rfl, rfl⟩
  have hsame : ∀ a ∈ towns.rows, ∀ b ∈ towns.rows, (a == b) = true → counts a = counts b := by
    change ∀ a ∈ [[oslo], [bergen]], ∀ b ∈ [[oslo], [bergen]], _
    have hother : ([oslo] == [bergen]) = false := by decide
    have hother' : ([bergen] == [oslo]) = false := by decide
    simp only [List.forall_mem_cons, List.not_mem_nil, false_imp_iff, implies_true, and_true,
      hother, hother', Bool.false_eq_true]
  obtain ⟨hsorts, -⟩ := Calc.order_sorts_by_keys hset hnames .currentValue false
  obtain ⟨sorted, heval, hmutable, -, -, hown⟩ := hsorts counts hkeys
  exact ⟨sorted, heval, hmutable, hown hsame⟩

/-- A hierarchy in which a child of the all member has its name. -/
def twinTime : Hierarchy :=
  (((withAll "Time").addMember none "All Times").addMember none "2023").build.toOption.get rfl

def twinYears : TupleList := ⟨.unary twinTime.members.toArray, false, .unbounded⟩

def twinSold : Context :=
  .root ⟨"Sales", [twinTime]⟩ ⟨1, [([twinTime.members.get ⟨2, by decide⟩], .number 1)]⟩

/-- What the parent of the current member comes to. -/
def parentValue : Calc := .memberValue [.memberParent (.currentMember twinTime)]

def parentCounts (row : Tuple) : Option Double := (row.head?.bind Member.parent?).map fun _ => 1

/-- The all member has no key, and stays before the members with a key all the same. -/
theorem twinYears_misplaced : ∃ sorted : TupleList,
    (Calc.hierarchyMembers twinTime .unbounded).listIn true twinSold = .ok twinYears ∧
    (TupleSource.list twinYears).Names ["Time"] ∧
    (∀ row ∈ twinYears.rows, parentValue.keyAt twinSold row = .ok (parentCounts row)) ∧
    Calc.evaluate twinSold (.order (.hierarchyMembers twinTime .unbounded) parentValue true true) =
      .ok (.list sorted) ∧
    ¬ SortsBy true parentCounts twinYears.rows sorted.rows := by
  have hset : (Calc.hierarchyMembers twinTime .unbounded).listIn true twinSold = .ok twinYears :=
    rfl
  have hnames : (TupleSource.list twinYears).Names ["Time"] := ⟨rfl, by decide⟩
  refine ⟨twinYears.copy, hset, hnames, ?_, ?_, fun hsorted => ?_⟩
  · change ∀ row ∈ [[twinTime.members.get ⟨0, by decide⟩], [twinTime.members.get ⟨1, by decide⟩],
      [twinTime.members.get ⟨2, by decide⟩]], _
    simp only [List.forall_mem_cons, List.not_mem_nil, false_imp_iff, implies_true, and_true]
    exact ⟨rfl, rfl, rfl⟩
  · let keys : SortKeys := (twinYears.rows.map fun row => (row, parentCounts row)).reverse
    have hstays : twinYears.rows.mergeSort (fun a b => (keys.compare true a b).isLE) =
        twinYears.rows := List.mergeSort_of_pairwise (by decide)
    have hsort : twinYears.copy.sortBy (keys.compare true) = .ok { twinYears.copy with
        storage := twinYears.storage.refill
          (twinYears.rows.mergeSort fun a b => (keys.compare true a b).isLE) } := rfl
    rw [hstays] at hsort
    rw [Calc.evaluate_order_eq hset hnames]
    change (do return Value.list (← twinYears.copy.sortBy (keys.compare true))) = _
    rw [hsort]
    rfl
  · have hfirst := (List.pairwise_cons.mp hsorted.ordered).1 _ List.mem_cons_self
    exact hfirst (.missing 1)

end Sales

end CubeCalc
