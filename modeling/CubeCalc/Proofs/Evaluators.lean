import CubeCalc.Proofs.Compiled
import CubeCalc.Proofs.MinimalContext
/-!
# Evaluators that are written to

A calc can be evaluated by an evaluator that others hold as well. Wherever it has to look at another
place than its caller's it pushes a copy and moves that, one copy for a whole walk. Evaluated in
this way every calc comes to what it comes to in the caller's context, and all evaluators that were
there before it stand where they stood, the caller's own among them, whether it fails or not.
-/

namespace CubeCalc

open Outcome

/-- What is done with evaluators that can be read, written to and copied. -/
abbrev Evaluation := ExceptT Failure (StateM (List Evaluator))

namespace Evaluation

variable {α β : Type}

/-- What fails writes nothing. -/
def update (write : List Evaluator → Outcome (List Evaluator × α)) : Evaluation α :=
  .mk fun evaluators =>
    match write evaluators with
    | .ok (written, a) => (.ok a, written)
    | .error failure => (.error failure, evaluators)

def contextAt (place : Nat) : Evaluation Context :=
  update fun evaluators => do return (evaluators, (← Evaluator.at? evaluators place).context)

/-- Adds a copy of an evaluator, and comes to its place. -/
def push (place : Nat) : Evaluation Nat :=
  update fun evaluators => do return (← Evaluator.push evaluators place, evaluators.length)

def setContext (place : Nat) (m : Member) : Evaluation Unit :=
  update fun evaluators => do return (← Evaluator.setContext evaluators place m, ())

/-- The place of an evaluator with the context in which a calc is evaluated. -/
def simplified (c : Calc) (simplify : Bool) (place : Nat) : Evaluation Nat :=
  if simplify then update fun evaluators => c.simplifyAt evaluators place else return place

/-- The cell of a copy that is moved to some members. -/
def valueAt (place : Nat) (members : List Member) : Evaluation Value := do
  let copy ← push place
  members.forM (setContext copy)
  return .ofCell (← contextAt copy).cell

def nonEmptyProduct (place : Nat) (left right : TupleList) (limit : RowLimit) :
    Evaluation TupleList :=
  (productRows left right).foldlM
    (fun kept row => do
      if (← valueAt place row).isNull then return kept else kept.push row)
    (TupleList.new (left.arity + right.arity) limit)

/-- Moves an evaluator to a tuple, column by column. -/
def enter (place arity : Nat) (row : Tuple) : Evaluation Unit := do
  (row.take arity).forM (setContext place)
  if row.length < arity then violate .outOfRange

/-- Visits the rows in order with one copy, which is moved on from row to row. -/
def walk (source : TupleSource) (place : Nat) (start : β)
    (visit : β → Tuple → Nat → Evaluation β) : Evaluation β := do
  let copy ← push place
  source.tuples.foldlM (fun result row => do
    source.reach row
    enter copy source.arity row
    visit result row copy) start

end Evaluation

namespace Calc

open Evaluation

mutual

/-- The value by an evaluator, which is handed on to what is evaluated in the same context. -/
def evaluateBy (place : Nat) : Calc → Evaluation Value
  | .memberValue members => do
    match ← evaluateMembersBy place members with
    | some members => Evaluation.valueAt place members
    | none => return .null
  | .tupleValue tuple => do
    match ← (← evaluateBy place tuple).toTuple with
    | some members => Evaluation.valueAt place members
    | none => return .null
  | .tupleLiteral members => do
    return (← evaluateMembersBy place members).elim .null .tuple
  | .memberName member => do
    return (← (← evaluateBy place member).toMember).elim .null fun m => .string m.name
  | .memberParent member => do
    return ((← (← evaluateBy place member).toMember).bind Member.parent?).elim .null .member
  | .memberLevel member => do
    let m? ← (← evaluateBy place member).toMember
    let ctx ← contextAt place
    let level? := m?.bind fun m => (ctx.cube.hierarchyOf? m).bind fun h => h.level? m.depth
    return level?.elim .null .level
  | .memberHierarchy member => do
    let m? ← (← evaluateBy place member).toMember
    let ctx ← contextAt place
    return (m?.bind ctx.cube.hierarchyOf?).elim .null .hierarchy
  | .memberChildren member limit => do
    match ← (← evaluateBy place member).toMember with
    | some m => return .list (← TupleList.ofMembers ((← contextAt place).childrenOf m) limit)
    | none => return .list (TupleList.new 1 limit)
  | .setLiteral elements limit => do
    let arity := max ((elements.head?.map fun c => c.type.arity).getD 0) 1
    let empty ← TupleList.withCapacity arity elements.length limit
    return .list (← evaluateElementsBy place empty elements)
  | .crossJoin left right limit => do
    let left ← (← evaluateBy place left).toList
    let right ← (← evaluateBy place right).toList
    if (← contextAt place).nonEmpty then
      return .iterable (.list (← Evaluation.nonEmptyProduct place left right limit).fixed)
    else
      limit.check (productLength left right)
      return .iterable (.product left right)
  | .filter set condition limit simplify => do
    let source ← (← evaluateBy (← simplified set simplify place) set).toSource
    let kept ← walk source place (TupleList.new source.arity limit) fun kept row copy => do
      if ← (← evaluateBy copy condition).toBoolean then
        kept.addRow source.arity (source.wholeRow row)
      else return kept
    return .list kept
  | .order set key descending simplify => do
    let tuples ← (← evaluateBy (← simplified set simplify place) set).toList
    let keys : SortKeys ← walk (.list tuples) place [] fun keys row copy => do
      let value ← (← evaluateBy copy key).toNumber
      return (← readColumns tuples.arity row, value) :: keys
    return .list (← tuples.copy.sortBy (keys.compare descending))
  | .aggregate set value function simplify => do
    let source ← (← evaluateBy (← simplified set simplify place) set).toSource
    let statistics : Accumulator Double ← walk source place .start fun statistics _ copy => do
      return statistics.add (← evaluateBy copy value).observation
    return (statistics.compute function).elim .null .number
  | .walkCount set simplify => do
    let source ← (← evaluateBy (← simplified set simplify place) set).toSource
    return .number (Double.ofNat (← source.count))
  | .listCount set => do
    return .number (Double.ofNat (← (← evaluateBy place set).toList).length)
  | .arithmetic op left right => do
    let l ← (← evaluateBy place left).toNumber
    let r ← (← evaluateBy place right).toNumber
    return (op.apply l r).elim .null .number
  | .comparison op left right => do
    let l ← (← evaluateBy place left).toNumber
    let r ← (← evaluateBy place right).toNumber
    return .boolean (op.apply l r)
  | .and left right => do
    if ← (← evaluateBy place left).toBoolean then
      return .boolean (← (← evaluateBy place right).toBoolean)
    else return .boolean false
  | .or left right => do
    if ← (← evaluateBy place left).toBoolean then return .boolean true
    else return .boolean (← (← evaluateBy place right).toBoolean)
  | .not operand => do
    return .boolean !(← (← evaluateBy place operand).toBoolean)
  | .iif condition thenCalc elseCalc => do
    if ← (← evaluateBy place condition).toBoolean then evaluateBy place thenCalc
    else evaluateBy place elseCalc
  | .packedList c style limit => do
    let packed ← (← (← evaluateBy place c).toSource).materialize limit
    return .list (if style = .list then packed.fixed else packed)
  | .copiedList c => do
    return .list (← (← evaluateBy place c).toList).copy
  | .effect c => do
    let value ← evaluateBy place c
    if c.style = .iterable then let _ ← value.toSource
    return .null
  -- No other calc hands its evaluator on.
  | c => do c.evaluate (← contextAt place)

def evaluateMembersBy (place : Nat) : List Calc → Evaluation (Option (List Member))
  | [] => return some []
  | c :: rest => do
    match ← (← evaluateBy place c).toMember with
    | some m => return (← evaluateMembersBy place rest).map (m :: ·)
    | none => return none

def evaluateElementsBy (place : Nat) (l : TupleList) : List Calc → Evaluation TupleList
  | [] => return l
  | c :: rest => do
    match ← (← evaluateBy place c).toTuple with
    | some row => evaluateElementsBy place (← l.push row) rest
    | none => evaluateElementsBy place l rest

end

end Calc

/-! ### What is left as it was -/

namespace Evaluation

variable {α β γ : Type} {place depth : Nat} {ctx here : Context}
  {evaluators before : List Evaluator}

theorem run_bind (m : Evaluation α) (f : α → Evaluation β) (evaluators : List Evaluator) :
    (m >>= f).run.run evaluators =
      match m.run.run evaluators with
      | (.ok a, written) => (f a).run.run written
      | (.error failure, written) => (.error failure, written) := by
  rw [ExceptT.run_bind, StateT.run_bind]
  generalize m.run.run evaluators = answer
  obtain ⟨o, written⟩ := answer
  cases o <;> rfl

theorem run_update_ok {write : List Evaluator → Outcome (List Evaluator × α)}
    {written : List Evaluator} {a : α} (hwrite : write evaluators = .ok (written, a)) :
    (update write).run.run evaluators = (.ok a, written) := by
  change (match write evaluators with
    | .ok (written, a) => (Except.ok a, written)
    | .error failure => (Except.error failure, evaluators)) = _
  rw [hwrite]

theorem run_update_error {write : List Evaluator → Outcome (List Evaluator × α)}
    {failure : Failure} (hwrite : write evaluators = .error failure) :
    (update write).run.run evaluators = (.error failure, evaluators) := by
  change (match write evaluators with
    | .ok (written, a) => (Except.ok a, written)
    | .error failure => (Except.error failure, evaluators)) = _
  rw [hwrite]

/-- By an evaluator with some context the computation comes to the outcome. It may fail, and leaves
all evaluators as they were in any case. No more than copies are added. -/
def Spares (place : Nat) (ctx : Context) (m : Evaluation α) (o : Outcome α) : Prop :=
  ∀ (evaluators : List Evaluator) (depth : Nat), evaluators[place]? = some ⟨ctx, depth⟩ →
    ∃ copies, m.run.run evaluators = (o, evaluators ++ copies)

/-- The computation moves an evaluator, and none of those before it. If it does not fail the
evaluator has the context afterwards that comes with the outcome. -/
def Moves (before : List Evaluator) (depth : Nat) (here : Context) (m : Evaluation α)
    (o : Outcome (α × Context)) : Prop :=
  ∀ copies, ∃ there later,
    m.run.run (before ++ ⟨here, depth⟩ :: copies) =
      (o.map Prod.fst, before ++ ⟨there, depth⟩ :: later) ∧
    ∀ a next, o = .ok (a, next) → there = next

namespace Spares

variable {m : Evaluation α} {o : Outcome α}

theorem lift (o : Outcome α) : Spares place ctx (liftM o) o := by
  intro evaluators depth _
  refine ⟨[], ?_⟩
  rw [List.append_nil]
  cases o <;> rfl

theorem ok (a : α) : Spares place ctx (pure a) (.ok a) := lift (.ok a)

theorem bind (hm : Spares place ctx m o) {f : α → Evaluation β} {g : α → Outcome β}
    (hf : ∀ a, o = .ok a → Spares place ctx (f a) (g a)) :
    Spares place ctx (m >>= f) (o >>= g) := by
  intro evaluators depth hplace
  obtain ⟨copies, hrun⟩ := hm evaluators depth hplace
  rw [run_bind, hrun]
  cases o with
  | error failure => exact ⟨copies, rfl⟩
  | ok a =>
    have hlt : place < evaluators.length := (List.getElem?_eq_some_iff.mp hplace).1
    have hplace' : (evaluators ++ copies)[place]? = some ⟨ctx, depth⟩ := by
      rw [List.getElem?_append_left hlt, hplace]
    obtain ⟨more, hrest⟩ := hf a rfl (evaluators ++ copies) depth hplace'
    refine ⟨copies ++ more, ?_⟩
    rw [← List.append_assoc]
    exact hrest

/-- What is read of the outcome fails without writing. -/
theorem read (hm : Spares place ctx m o) {f : α → Outcome β} {g : β → Evaluation γ}
    {k : β → Outcome γ} (hg : ∀ b, Spares place ctx (g b) (k b)) :
    Spares place ctx (m >>= fun a => liftM (f a) >>= g) (o >>= fun a => f a >>= k) :=
  hm.bind fun a _ => (lift (f a)).bind fun b _ => hg b

theorem foldlM {f : β → γ → Evaluation β} {g : β → γ → Outcome β} {l : List γ}
    (hstep : ∀ b, ∀ c ∈ l, Spares place ctx (f b c) (g b c)) (start : β) :
    Spares place ctx (l.foldlM f start) (l.foldlM g start) := by
  induction l generalizing start with
  | nil => exact ok start
  | cons c rest ih =>
    rw [List.foldlM_cons, List.foldlM_cons]
    refine (hstep start c List.mem_cons_self).bind fun b _ => ?_
    exact ih (fun b c hc => hstep b c (List.mem_cons_of_mem _ hc)) b

theorem contextAt : Spares place ctx (contextAt place) (.ok ctx) := by
  intro evaluators depth hplace
  refine ⟨[], ?_⟩
  rw [List.append_nil]
  apply run_update_ok
  rw [Evaluator.at?, hplace]
  rfl

theorem inContext {f : Context → Evaluation α} (hf : Spares place ctx (f ctx) o) :
    Spares place ctx (Evaluation.contextAt place >>= f) o := by
  change Spares place ctx _ (Except.ok ctx >>= fun _ => o)
  refine contextAt.bind fun here hhere => ?_
  rwa [← Except.ok.inj hhere]

/-- What follows in a simplified context is handed the copy, if one has been made. -/
theorem simplified {c : Calc} {f : Nat → Evaluation α} {g : Context → Outcome α}
    (hf : ∀ place ctx, Spares place ctx (f place) (g ctx)) (simplify : Bool) :
    Spares place ctx (Evaluation.simplified c simplify place >>= f)
      (c.contextFor simplify ctx >>= g) := by
  cases simplify with
  | false => exact hf place ctx
  | true =>
    intro evaluators depth hplace
    have hsimplify := Calc.simplifyAt_eq (c := c) hplace
    change ∃ copies, (update _ >>= f).run.run evaluators =
      ((c.simplify? ctx >>= fun copy? => .ok (copy?.getD ctx)) >>= g, evaluators ++ copies)
    rw [run_bind]
    cases hcopy : c.simplify? ctx with
    | error failure =>
      rw [hcopy] at hsimplify
      rw [run_update_error hsimplify]
      exact ⟨[], by rw [List.append_nil]; rfl⟩
    | ok copy? =>
      rw [hcopy] at hsimplify
      rw [run_update_ok hsimplify]
      obtain ⟨depth', hhere⟩ := Calc.exists_at_handedBack hplace copy?
      obtain ⟨copies, hrun⟩ := hf _ _ _ depth' hhere
      cases copy? with
      | none => exact ⟨copies, hrun⟩
      | some here =>
        refine ⟨⟨here, depth + 1⟩ :: copies, hrun.trans ?_⟩
        rw [Calc.handedBack, Calc.written, List.append_assoc]
        rfl

/-- What comes after it is handed the caller's evaluator again. -/
theorem withSimplified {c : Calc} {f : Nat → Evaluation α} {g : Context → Outcome α}
    (hf : ∀ place ctx, Spares place ctx (f place) (g ctx)) (simplify : Bool)
    {rest : α → Evaluation β} {k : α → Outcome β}
    (hrest : ∀ a, Spares place ctx (rest a) (k a)) :
    Spares place ctx
      (Evaluation.simplified c simplify place >>= fun here => f here >>= rest)
      (c.contextFor simplify ctx >>= fun there => g there >>= k) := by
  rw [← bind_assoc, ← bind_assoc]
  exact (simplified hf simplify).bind fun a _ => hrest a

end Spares

namespace Moves

variable {m : Evaluation α} {o : Outcome (α × Context)}

/-- What keeps all evaluators does not move. -/
theorem of_spares {o : Outcome α} (hm : Spares before.length here m o) :
    Moves before depth here m (o.map (·, here)) := by
  intro copies
  have hplace : (before ++ (⟨here, depth⟩ : Evaluator) :: copies)[before.length]? =
      some ⟨here, depth⟩ := by simp
  obtain ⟨more, hrun⟩ := hm _ depth hplace
  refine ⟨here, copies ++ more, ?_, fun a next hnext => ?_⟩
  · rw [hrun, List.append_assoc, List.cons_append]
    cases o <;> rfl
  · cases o with
    | error failure => cases hnext
    | ok own => exact (Prod.mk.inj (Except.ok.inj hnext)).2

theorem bind (hm : Moves before depth here m o) {f : α → Evaluation β}
    {g : α × Context → Outcome (β × Context)}
    (hf : ∀ a next, o = .ok (a, next) → Moves before depth next (f a) (g (a, next))) :
    Moves before depth here (m >>= f) (o >>= g) := by
  intro copies
  obtain ⟨there, later, hrun, hthere⟩ := hm copies
  rw [run_bind, hrun]
  cases o with
  | error failure => exact ⟨there, later, rfl, nofun⟩
  | ok result =>
    obtain ⟨a, next⟩ := result
    obtain rfl := hthere a next rfl
    exact hf a there rfl later

theorem foldlM {f : β → γ → Evaluation β} {g : β × Context → γ → Outcome (β × Context)}
    {l : List γ} (hstep : ∀ b here, ∀ c ∈ l, Moves before depth here (f b c) (g (b, here) c))
    (start : β) (here : Context) :
    Moves before depth here (l.foldlM f start) (l.foldlM g (start, here)) := by
  induction l generalizing start here with
  | nil => exact of_spares (Spares.ok start)
  | cons c rest ih =>
    rw [List.foldlM_cons, List.foldlM_cons]
    refine (hstep start here c List.mem_cons_self).bind fun b next _ => ?_
    exact ih (fun b here c hc => hstep b here c (List.mem_cons_of_mem _ hc)) b next

theorem setContext (m : Member) : Moves before depth here
    (Evaluation.setContext before.length m) ((here.move m).map fun next => ((), next)) := by
  intro copies
  have hat : Evaluator.at? (before ++ ⟨here, depth⟩ :: copies) before.length =
      .ok ⟨here, depth⟩ := by simp [Evaluator.at?]
  cases hmove : here.move m with
  | error failure =>
    refine ⟨here, copies, run_update_error ?_, fun a next hnext => ?_⟩
    · rw [Evaluator.setContext, hat, ok_bind, hmove]
      rfl
    · cases hnext
  | ok moved =>
    refine ⟨moved, copies, run_update_ok ?_, fun a next hnext => ?_⟩
    · rw [Evaluator.setContext, hat, ok_bind, hmove]
      simp [pure, Except.pure]
    · exact (Prod.mk.inj (Except.ok.inj hnext)).2

theorem forM_setContext (members : List Member) (here : Context) :
    Moves before depth here (members.forM (Evaluation.setContext before.length))
      ((here.moveAll members).map fun next => ((), next)) := by
  induction members generalizing here with
  | nil => exact of_spares (Spares.ok ())
  | cons m rest ih =>
    have hall : (here.moveAll (m :: rest)).map (fun next => ((), next)) =
        ((here.move m).map fun next => ((), next)) >>= fun result =>
          (result.2.moveAll rest).map fun next => ((), next) := by
      rw [Context.moveAll, List.foldlM_cons, bind_map, map_bind]
      rfl
    rw [hall]
    exact (setContext m).bind fun _ next _ => ih next

theorem enter (arity : Nat) (row : Tuple) : Moves before depth here
    (Evaluation.enter before.length arity row)
      ((here.enter arity row).map fun next => ((), next)) := by
  have henter : (here.enter arity row).map (fun next => ((), next)) =
      ((here.moveAll (row.take arity)).map fun next => ((), next)) >>= fun result =>
        ((if row.length < arity then violate .outOfRange else .ok ()) : Outcome Unit).map
          (·, result.2) := by
    rw [Context.enter, bind_map, map_bind]
    refine Outcome.bind_congr fun next _ => ?_
    split <;> rfl
  rw [Evaluation.enter, henter]
  refine (forM_setContext _ here).bind fun _ next _ => of_spares ?_
  split
  · exact Spares.lift _
  · exact Spares.ok ()

end Moves

namespace Spares

/-- A copy can be moved as the computation likes. -/
theorem push {f : Nat → Evaluation α} {o : Outcome (α × Context)}
    (hf : ∀ (before : List Evaluator) (depth : Nat), Moves before depth ctx (f before.length) o) :
    Spares place ctx (Evaluation.push place >>= f) (o.map Prod.fst) := by
  intro evaluators depth hplace
  have hpush : Evaluator.push evaluators place = .ok (evaluators ++ [⟨ctx, depth + 1⟩]) := by
    rw [Evaluator.push, Evaluator.at?, hplace]
    rfl
  obtain ⟨there, later, hrun, -⟩ := hf evaluators (depth + 1) []
  refine ⟨⟨there, depth + 1⟩ :: later, ?_⟩
  have hpushed : (Evaluation.push place).run.run evaluators =
      (.ok evaluators.length, evaluators ++ [⟨ctx, depth + 1⟩]) := by
    apply run_update_ok
    rw [hpush]
    rfl
  rw [run_bind, hpushed]
  exact hrun

theorem valueAt (members : List Member) :
    Spares place ctx (Evaluation.valueAt place members) (ctx.valueAt members) := by
  have hvalue : ctx.valueAt members = (((ctx.moveAll members).map fun next => ((), next)) >>=
      fun result => (Except.ok (Value.ofCell result.2.cell)).map (·, result.2)).map Prod.fst := by
    rw [Context.valueAt]
    cases ctx.moveAll members <;> rfl
  rw [hvalue]
  refine push fun before depth => (Moves.forM_setContext members ctx).bind fun _ next _ => ?_
  exact Moves.of_spares (contextAt.bind fun here _ => ok _)

theorem nonEmptyProduct (left right : TupleList) (limit : RowLimit) :
    Spares place ctx (Evaluation.nonEmptyProduct place left right limit)
      (CubeCalc.nonEmptyProduct ctx left right limit) := by
  refine foldlM (fun kept row _ => (valueAt row).bind fun v _ => ?_) _
  split
  · exact ok kept
  · exact lift _

/-- A walk moves its copy on from row to row. -/
theorem walk {source : TupleSource} {start : β} {visit : β → Tuple → Nat → Evaluation β}
    {visit' : β → Tuple → Context → Outcome β}
    (hvisit : ∀ result row copy here,
      Spares copy here (visit result row copy) (visit' result row here)) :
    Spares place ctx (Evaluation.walk source place start visit) (source.walk ctx start visit') := by
  have hstep : ∀ (result : β) (here : Context) (row : Tuple),
      (do
        source.reach row
        let there ← here.enter source.arity row
        return (← visit' result row there, there)) =
      (source.reach row).map (fun _ => ((), here)) >>= fun reached : Unit × Context =>
        (reached.2.enter source.arity row).map (fun there => ((), there)) >>=
          fun entered : Unit × Context =>
            (visit' result row entered.2).map fun visited => (visited, entered.2) := by
    intro result here row
    rw [bind_map]
    refine Outcome.bind_congr fun _ _ => ?_
    rw [bind_map]
    rfl
  have hwalk : source.walk ctx start visit' =
      (source.tuples.foldlM (fun (state : β × Context) row => do
        source.reach row
        let there ← state.2.enter source.arity row
        return (← visit' state.1 row there, there)) (start, ctx)).map Prod.fst := rfl
  rw [hwalk]
  refine push fun before depth => Moves.foldlM (fun result here row _ => ?_) start ctx
  rw [hstep]
  refine (Moves.of_spares (lift (source.reach row))).bind fun _ next _ => ?_
  refine (Moves.enter source.arity row).bind fun _ there _ => ?_
  exact Moves.of_spares (hvisit result row before.length there)

end Spares

end Evaluation

/-! ### Calcs -/

namespace Calc

open Evaluation

variable {place : Nat} {ctx : Context}

theorem spares_evaluateMembersBy {members : List Calc}
    (hmembers : ∀ c ∈ members, ∀ place ctx,
      Spares place ctx (c.evaluateBy place) (c.evaluate ctx)) :
    Spares place ctx (evaluateMembersBy place members) (evaluateMembers ctx members) := by
  induction members with
  | nil => exact .ok _
  | cons c rest ih =>
    rw [List.forall_mem_cons] at hmembers
    rw [evaluateMembersBy, evaluateMembers]
    refine (hmembers.1 place ctx).read fun m? => ?_
    cases m? with
    | none => exact .ok _
    | some m => exact (ih hmembers.2).bind fun _ _ => .ok _

theorem spares_evaluateElementsBy {elements : List Calc}
    (helements : ∀ c ∈ elements, ∀ place ctx,
      Spares place ctx (c.evaluateBy place) (c.evaluate ctx)) (l : TupleList) :
    Spares place ctx (evaluateElementsBy place l elements) (evaluateElements ctx l elements) := by
  induction elements generalizing l with
  | nil => exact .ok _
  | cons c rest ih =>
    rw [List.forall_mem_cons] at helements
    rw [evaluateElementsBy, evaluateElements]
    refine (helements.1 place ctx).read fun row? => ?_
    cases row? with
    | none => exact ih helements.2 l
    | some row => exact (Spares.lift (l.push row)).bind fun longer _ => ih helements.2 longer

/-- Every calc is evaluated by an evaluator as it is in the evaluator's context, and leaves that
context and all others as they were. -/
theorem spares_evaluateBy (c : Calc) :
    ∀ (place : Nat) (ctx : Context), Spares place ctx (c.evaluateBy place) (c.evaluate ctx) := by
  induction c using children_induction with
  | step c ih =>
  intro place ctx
  cases c with
  | constant | currentValue | currentMember | memberLiteral | hierarchyMembers | levelMembers
  | custom => exact Spares.inContext (.lift _)
  | memberValue members =>
    rw [evaluateBy, evaluate]
    refine (spares_evaluateMembersBy ih).bind fun row? _ => ?_
    cases row? with
    | none => exact .ok _
    | some row => exact .valueAt row
  | tupleValue tuple =>
    rw [evaluateBy, evaluate]
    refine (ih tuple (List.mem_singleton_self _) place ctx).read fun row? => ?_
    cases row? with
    | none => exact .ok _
    | some row => exact .valueAt row
  | tupleLiteral members =>
    rw [evaluateBy, evaluate]
    exact (spares_evaluateMembersBy ih).bind fun _ _ => .ok _
  | memberName member | memberParent member =>
    rw [evaluateBy, evaluate]
    exact (ih member (List.mem_singleton_self _) place ctx).read fun _ => .ok _
  | memberLevel member | memberHierarchy member =>
    rw [evaluateBy, evaluate]
    exact (ih member (List.mem_singleton_self _) place ctx).read fun _ => .inContext (.ok _)
  | memberChildren member limit =>
    rw [evaluateBy, evaluate]
    refine (ih member (List.mem_singleton_self _) place ctx).read fun m? => ?_
    cases m? with
    | none => exact .ok _
    | some m => exact .inContext ((Spares.lift _).bind fun _ _ => .ok _)
  | setLiteral elements limit =>
    rw [evaluateBy, evaluate]
    refine (Spares.lift _).bind fun empty _ => ?_
    exact (spares_evaluateElementsBy ih empty).bind fun _ _ => .ok _
  | crossJoin left right limit =>
    rw [evaluateBy, evaluate]
    refine (ih left List.mem_cons_self place ctx).read fun l => ?_
    refine (ih right (by simp [children]) place ctx).read fun r => .inContext ?_
    split
    · exact (Spares.nonEmptyProduct l r limit).bind fun _ _ => .ok _
    · exact (Spares.lift _).bind fun _ _ => .ok _
  | filter set condition limit simplify =>
    rw [evaluateBy, evaluate]
    refine .withSimplified (ih set List.mem_cons_self) simplify fun v => ?_
    refine (Spares.lift _).bind fun source _ => ?_
    refine (Spares.walk fun kept row copy here => ?_).bind fun _ _ => .ok _
    refine (ih condition (by simp [children]) copy here).read fun passed => ?_
    split
    · exact .lift _
    · exact .ok _
  | order set key descending simplify =>
    rw [evaluateBy, evaluate]
    refine .withSimplified (ih set List.mem_cons_self) simplify fun v => ?_
    refine (Spares.lift _).bind fun tuples _ => ?_
    refine (Spares.walk fun keys row copy here => ?_).bind fun keys _ => ?_
    · refine (ih key (by simp [children]) copy here).read fun value => ?_
      exact (Spares.lift _).bind fun _ _ => .ok _
    · exact (Spares.lift _).bind fun _ _ => .ok _
  | aggregate set value function simplify =>
    rw [evaluateBy, evaluate]
    refine .withSimplified (ih set List.mem_cons_self) simplify fun v => ?_
    refine (Spares.lift _).bind fun source _ => ?_
    refine (Spares.walk fun statistics row copy here => ?_).bind fun _ _ => .ok _
    exact (ih value (by simp [children]) copy here).bind fun _ _ => .ok _
  | walkCount set simplify =>
    rw [evaluateBy, evaluate]
    refine .withSimplified (ih set (List.mem_singleton_self _)) simplify fun v => ?_
    refine (Spares.lift _).bind fun source _ => ?_
    exact (Spares.lift _).bind fun _ _ => .ok _
  | listCount set =>
    rw [evaluateBy, evaluate]
    exact (ih set (List.mem_singleton_self _) place ctx).read fun _ => .ok _
  | arithmetic op left right | comparison op left right =>
    rw [evaluateBy, evaluate]
    refine (ih left List.mem_cons_self place ctx).read fun l => ?_
    exact (ih right (by simp [children]) place ctx).read fun _ => .ok _
  | and left right =>
    rw [evaluateBy, evaluate]
    refine (ih left List.mem_cons_self place ctx).read fun l => ?_
    split
    · exact (ih right (by simp [children]) place ctx).read fun _ => .ok _
    · exact .ok _
  | or left right =>
    rw [evaluateBy, evaluate]
    refine (ih left List.mem_cons_self place ctx).read fun l => ?_
    split
    · exact .ok _
    · exact (ih right (by simp [children]) place ctx).read fun _ => .ok _
  | not operand =>
    rw [evaluateBy, evaluate]
    exact (ih operand (List.mem_singleton_self _) place ctx).read fun _ => .ok _
  | iif condition thenCalc elseCalc =>
    rw [evaluateBy, evaluate]
    refine (ih condition List.mem_cons_self place ctx).read fun b => ?_
    split
    · exact ih thenCalc (by simp [children]) place ctx
    · exact ih elseCalc (by simp [children]) place ctx
  | packedList c style limit =>
    rw [evaluateBy, evaluate]
    refine (ih c (List.mem_singleton_self _) place ctx).read fun source => ?_
    exact (Spares.lift _).bind fun _ _ => .ok _
  | copiedList c =>
    rw [evaluateBy, evaluate]
    exact (ih c (List.mem_singleton_self _) place ctx).read fun _ => .ok _
  | effect c =>
    rw [evaluateBy, evaluate]
    refine (ih c (List.mem_singleton_self _) place ctx).bind fun value _ => ?_
    split
    · exact (Spares.lift _).bind fun _ _ => .ok _
    · exact .ok _

end Calc

end CubeCalc
