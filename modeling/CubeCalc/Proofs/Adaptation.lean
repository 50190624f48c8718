import CubeCalc.Proofs.CrossJoin
import CubeCalc.Proofs.TypeSoundness
/-!
# Adapting to result styles

A set can be brought to any style but that of a single value, and everything else to that one only.
Among the styles that are asked for the first that can be met decides. A set that has been brought
to a style has the tuples that it had before: packing what a cross join comes to never exceeds the
limit that the cross join has kept to. Lists are mutable exactly if their style says so.
-/

namespace CubeCalc

open Outcome

variable {cube : Cube} {config : CalcConfig} {c own : Calc} {ctx : Context} {limit : RowLimit}
  {arity : Nat}

/-! ### Packing within the limit -/

/-- A list that is what its rows come to when they are pushed one after the other. To copy it is to
build it again, and what had room before has it again. -/
structure TupleList.IsBuilt (l : TupleList) (arity : Nat) (limit : RowLimit) : Prop where
  holds : l.Holds l.rows
  arity_eq : l.arity = arity
  isMutable_eq : l.isMutable = true
  rebuild_eq : l.rows.foldlM TupleList.push (new arity limit) = .ok l

namespace TupleList.IsBuilt

variable {l longer : TupleList} {row : Tuple}

theorem new (arity : Nat) (limit : RowLimit) : (new arity limit).IsBuilt arity limit := by
  obtain ⟨hholds, harity⟩ := new_holds arity limit
  have hrows : (TupleList.new arity limit).rows = [] := hholds.rows_eq
  exact ⟨hrows ▸ hholds, harity, rfl, by rw [hrows]; rfl⟩

theorem push (hl : l.IsBuilt arity limit) (hrow : row.length = arity)
    (hpush : l.push row = .ok longer) : longer.IsBuilt arity limit := by
  obtain ⟨storage, hstores, harity, heq⟩ := push_eq hl.holds hl.isMutable_eq
    (hrow.trans hl.arity_eq.symm)
  obtain ⟨-, -, hlonger⟩ := bind_eq_ok_iff.mp (heq.symm.trans hpush)
  have hsame : { l with storage } = longer := Except.ok.inj hlonger
  have hrows : longer.rows = l.rows ++ [row] := by
    rw [← hsame]
    exact hstores.rows_eq
  refine ⟨?_, ?_, ?_, ?_⟩
  · rw [hrows, ← hsame]
    exact hstores
  · rw [← hsame]
    exact harity.trans hl.arity_eq
  · rw [← hsame]
    exact hl.isMutable_eq
  · rw [hrows, List.foldlM_append, hl.rebuild_eq]
    simp only [List.foldlM_cons, List.foldlM_nil, ok_bind, hpush]
    rfl

theorem materialize_eq (hl : l.IsBuilt arity limit) :
    (TupleSource.list l.fixed).materialize limit = .ok l := by
  have hrows : ∀ row ∈ (TupleSource.list l.fixed).tuples,
      row.length = (TupleSource.list l.fixed).arity := hl.holds.uniform
  rw [TupleSource.materialize_eq_foldlM hrows]
  change l.rows.foldlM TupleList.push (TupleList.new l.arity limit) = .ok l
  rw [hl.arity_eq, hl.rebuild_eq]

end TupleList.IsBuilt

theorem nonEmptyProduct_isBuilt {l r : TupleList}
    (hrows : ∀ row ∈ productRows l r, row.length = l.arity + r.arity) :
    Meets (TupleList.IsBuilt · (l.arity + r.arity) limit) (fun _ => True)
      (nonEmptyProduct ctx l r limit) := by
  refine meets_foldlM (.new _ limit) fun kept row hrow hkept => ?_
  cases ctx.valueAt row with
  | error failure => trivial
  | ok value =>
    rw [ok_bind]
    split
    · exact hkept
    · cases hpush : kept.push row with
      | error failure => trivial
      | ok longer => exact hkept.push (hrows row hrow) hpush

/-! ### What a cross join comes to -/

theorem RowLimit.allows_of_check_productLength {most : Int} (hmost : most ≤ Int64.maxValue.toInt)
    {l r : TupleList} (hcheck : (ofInt most).check (productLength l r) = .ok ()) :
    (ofInt most).Allows (productRows l r).length := by
  intro rows hrows
  rw [check_productLength hmost] at hcheck
  rw [length_productRows]
  split at hcheck
  · cases hcheck
  · next hkept =>
    rw [ofInt] at hrows
    split at hrows
    · cases hrows
    · obtain rfl := Option.some.inj hrows
      omega

namespace Calc.Formed

theorem fits (hc : c.Formed cube config) {v : Value} (hv : c.evaluate ctx = .ok v) :
    (Regime.any cube config.limit).Fits c.style v c.type :=
  (meets_reports hc ctx).of_ok hv

/-- A calc with the style of a list comes to a list, which is mutable just if the style says so. -/
theorem exists_list (hc : c.Formed cube config) (hlist : c.style.isList = true) {v : Value}
    (hv : c.evaluate ctx = .ok v) :
    ∃ l, v = .list l ∧ (Regime.any cube config.limit).Lists c.type.spans l ∧
      l.isMutable = decide (c.style = .mutableList) := by
  have hset := hc.isSet_of_style fun hvalue => by simp [hvalue, ResultStyle.isList] at hlist
  exact (hc.fits hv).exists_list hset.1 hlist

/-- What a cross join comes to can be packed under the limit of the cross join. -/
theorem exists_materialize (hc : c.Formed cube config) (hstyle : c.style = .iterable)
    (hlimit : config.resultLimit ≤ Int64.maxValue.toInt) {v : Value}
    (hv : c.evaluate ctx = .ok v) :
    ∃ source packed, v = .iterable source ∧ source.materialize config.limit = .ok packed ∧
      packed.rows = source.tuples := by
  cases hc with
  | @crossJoin left right hleft hleftType hleftStyle hright hrightType hrightStyle =>
    rw [evaluate] at hv
    obtain ⟨first, hfirst, hv⟩ := bind_eq_ok_iff.mp hv
    obtain ⟨l, hl, hv⟩ := bind_eq_ok_iff.mp hv
    obtain ⟨second, hsecond, hv⟩ := bind_eq_ok_iff.mp hv
    obtain ⟨r, hr, hv⟩ := bind_eq_ok_iff.mp hv
    have hlists := ((hleft.fits hfirst).toList hleftType hleftStyle).of_ok hl
    have hlists' := ((hright.fits hsecond).toList hrightType hrightStyle).of_ok hr
    have hrows : ∀ row ∈ productRows l r, row.length = l.arity + r.arity := by
      intro row hrow
      rw [(hlists.productRows_belong hlists' row hrow).length_eq, List.length_append,
        hlists.arity_eq, hlists'.arity_eq]
    split at hv
    · -- The pairs that are kept have been pushed under the same limit.
      obtain ⟨kept, hkept, hv⟩ := bind_eq_ok_iff.mp hv
      have hbuilt := (nonEmptyProduct_isBuilt hrows).of_ok hkept
      exact ⟨.list kept.fixed, kept, (Except.ok.inj hv).symm, hbuilt.materialize_eq, rfl⟩
    · -- Of all pairs the number has been held against the limit.
      obtain ⟨⟨⟩, hcheck, hv⟩ := bind_eq_ok_iff.mp hv
      have hallows := RowLimit.allows_of_check_productLength hlimit hcheck
      have hpairs : ∀ row ∈ (TupleSource.product l r).tuples,
          row.length = (TupleSource.product l r).arity := hrows
      obtain ⟨packed, hpacked, hrepresents⟩ :=
        TupleSource.exists_materialize_of_allows hpairs hallows
      exact ⟨.product l r, packed, (Except.ok.inj hv).symm, hpacked, hrepresents.holds.rows_eq⟩
  | @packedList _ style _ _ hlist =>
    obtain rfl : style = .iterable := hstyle
    cases hlist
  | _ => cases hstyle

end Calc.Formed

/-! ### Styles that can be met -/

/-- The styles that a calc of some type can be brought to. -/
def StaticType.meets (type : StaticType) (style : ResultStyle) : Bool :=
  if type.isSet then style ≠ .value else style = .any ∨ style = .value

/-- The first of the requested styles that can be met decides. -/
theorem ResultStyle.negotiate_eq_of_find? {actual decided : ResultStyle}
    {requested : List ResultStyle} {adaptation : Adaptation}
    (hfind : requested.find? (fun style => (actual.adaptation? style).isSome) = some decided)
    (hadaptation : actual.adaptation? decided = some adaptation) :
    actual.negotiate requested = .ok (actual.settled decided, adaptation) := by
  obtain ⟨-, before, after, rfl, hbefore⟩ := List.find?_eq_some_iff_append.mp hfind
  have hnone : before.findSome? (fun style => (actual.adaptation? style).map fun adaptation =>
      (actual.settled style, adaptation)) = none := by
    simpa using hbefore
  rw [negotiate, List.findSome?_append, hnone, List.findSome?_cons, hadaptation]
  rfl

namespace Calc

namespace Formed

variable {wanted decided : ResultStyle} {styles : List ResultStyle}

theorem isSet_eq (hc : c.Formed cube config) : c.type.isSet = decide (c.style ≠ .value) := by
  by_cases hstyle : c.style = .value
  · -- The forms with a type of their own are no sets, and the others take over one that is not.
    rw [hstyle]
    cases hc with
    | constant value => cases value <;> rfl
    | tupleLiteral =>
      rw [type_tupleLiteral]
      rfl
    | @memberParent member _ htype =>
      change member.type.isSet = false
      cases hcase : member.type <;> simp_all [StaticType.isMember, StaticType.isSet]
    | @iif _ thenCalc _ _ _ _ htype =>
      change thenCalc.type.isSet = false
      cases hcase : thenCalc.type <;> simp_all [StaticType.isScalar, StaticType.isSet]
    | packedList _ _ hlist =>
      subst hstyle
      cases hlist
    | hierarchyMembers | levelMembers | memberChildren | setLiteral => cases hstyle
    | crossJoin | filter | order | copiedList => cases hstyle
    | _ => rfl
  · simp [hstyle, (hc.isSet_of_style hstyle).1]

theorem isSome_adaptation?_eq (hc : c.Formed cube config) (style : ResultStyle) :
    (c.style.adaptation? style).isSome = c.type.meets style := by
  have hany := hc.style_ne_any
  rw [StaticType.meets, hc.isSet_eq]
  cases hcase : c.style <;> cases style <;> simp_all [ResultStyle.adaptation?]

/-- The first style that can be met is the one that the calc is brought to. -/
theorem exists_adapt_eq (hc : c.Formed cube config)
    (hfind : styles.find? c.type.meets = some decided) :
    ∃ own, c.adapt styles config.limit = .ok own ∧ c.adapt [decided] config.limit = .ok own ∧
      Adapts config c decided own := by
  have hmeets : c.type.meets decided = true := List.find?_some hfind
  have heq : (fun style => (c.style.adaptation? style).isSome) = c.type.meets :=
    funext hc.isSome_adaptation?_eq
  obtain ⟨adaptation, hadaptation⟩ :=
    Option.isSome_iff_exists.mp ((hc.isSome_adaptation?_eq decided).trans hmeets)
  obtain ⟨own, hadapted, hown⟩ := hc.exists_adapted hadaptation
  have hadapt : ∀ requested : List ResultStyle, requested.find? c.type.meets = some decided →
      c.adapt requested config.limit = .ok own := by
    intro requested hrequested
    rw [adapt, ResultStyle.negotiate_eq_of_find? (heq ▸ hrequested) hadaptation]
    exact hadapted
  exact ⟨own, hadapt styles hfind, hadapt [decided] (by simp [hmeets]), hown⟩

theorem exists_adapt_iff (hc : c.Formed cube config) :
    (∃ own, c.adapt styles config.limit = .ok own) ↔
      ∃ style ∈ styles, c.type.meets style = true := by
  constructor
  · rintro ⟨own, hadapt⟩
    obtain ⟨met, hmet, -⟩ := bind_eq_ok_iff.mp hadapt
    obtain ⟨wanted, hwanted, -, hadaptation⟩ := (meets_negotiate c.style styles).of_ok hmet
    refine ⟨wanted, hwanted, ?_⟩
    rw [← hc.isSome_adaptation?_eq, hadaptation]
    rfl
  · rintro ⟨style, hstyle, hmeets⟩
    obtain ⟨decided, hfind⟩ := Option.isSome_iff_exists.mp
      (List.find?_isSome.mpr ⟨style, hstyle, hmeets⟩)
    obtain ⟨own, hadapt, -⟩ := hc.exists_adapt_eq hfind
    exact ⟨own, hadapt⟩

end Formed

/-! ### Sets in the styles that they are brought to -/

/-- In a context, a set that has been brought to a style comes to the tuples that it came to before,
or fails as before, and it can be read in that style. -/
structure AdaptedIn (ctx : Context) (c own : Calc) (style : ResultStyle) : Prop where
  rows_eq : Matches (fun v w => w.rows = v.rows) (c.evaluate ctx) (own.evaluate ctx)
  list : style.isList = true → ∀ v, c.evaluate ctx = .ok v →
    ∃ l, own.evaluate ctx >>= Value.toList = .ok l ∧ l.rows = v.rows ∧
      (style = .mutableList → l.isMutable = true)
  iterable : style = .iterable → ∀ v, c.evaluate ctx = .ok v →
    ∃ source, own.evaluate ctx >>= Value.toSource = .ok source ∧ source.tuples = v.rows

namespace Formed

variable {wanted : ResultStyle}

theorem rows_of_adapts (hc : c.Formed cube config)
    (hlimit : config.resultLimit ≤ Int64.maxValue.toInt) (hown : Adapts config c wanted own) :
    Matches (fun v w => w.rows = v.rows) (c.evaluate ctx) (own.evaluate ctx) := by
  cases hown with
  | asIs =>
    cases c.evaluate ctx with
    | error failure => exact .failed failure
    | ok v => exact .ok rfl
  | packed hstyle =>
    rw [evaluate]
    cases hv : c.evaluate ctx with
    | error failure => exact .failed failure
    | ok v =>
      obtain ⟨source, packed, rfl, hpacked, hrows⟩ := hc.exists_materialize hstyle hlimit hv
      simp only [ok_bind, Value.toSource, hpacked]
      refine .ok ?_
      split <;> exact hrows
  | copied hstyle =>
    rw [evaluate]
    cases hv : c.evaluate ctx with
    | error failure => exact .failed failure
    | ok v =>
      obtain ⟨l, rfl, -, -⟩ := hc.exists_list (by simp [hstyle, ResultStyle.isList]) hv
      exact .ok rfl

theorem style_of_adapts (hc : c.Formed cube config) (hown : Adapts config c .mutableList own) :
    own.style = .mutableList := by
  cases hown with
  | asIs hwanted =>
    have hany := hc.style_ne_any
    cases hcase : c.style <;> simp_all [ResultStyle.adaptation?]
  | packed | copied => rfl

theorem isMutable_eq (hc : c.Formed cube config) (hlist : c.style.isList = true) {l : TupleList}
    (hl : c.evaluate ctx >>= Value.toList = .ok l) :
    l.isMutable = decide (c.style = .mutableList) := by
  obtain ⟨v, hv, htoList⟩ := bind_eq_ok_iff.mp hl
  obtain ⟨same, rfl, -, hsame⟩ := hc.exists_list hlist hv
  obtain rfl := Except.ok.inj htoList
  exact hsame

theorem exists_toSource (hc : c.Formed cube config) (hset : c.type.isSet = true) {v : Value}
    (hv : c.evaluate ctx = .ok v) : ∃ source, v.toSource = .ok source ∧ source.tuples = v.rows := by
  cases hstyle : c.style.isList with
  | true =>
    obtain ⟨l, rfl, -⟩ := hc.exists_list hstyle hv
    exact ⟨.list l, rfl, rfl⟩
  | false =>
    obtain ⟨source, rfl, -⟩ := (hc.fits hv).exists_source hset hstyle
    exact ⟨source, rfl, rfl⟩

theorem adaptedIn (hc : c.Formed cube config) (hset : c.type.isSet = true)
    (hlimit : config.resultLimit ≤ Int64.maxValue.toInt) (hown : Adapts config c wanted own)
    (ctx : Context) : c.AdaptedIn ctx own wanted := by
  have hmatches : Matches (fun v w => w.rows = v.rows) (c.evaluate ctx) (own.evaluate ctx) :=
    hc.rows_of_adapts hlimit hown
  obtain ⟨hformed, htype, hlist⟩ := hc.of_adapts hown
  refine ⟨hmatches, fun hwanted v hv => ?_, fun hwanted v hv => ?_⟩
  · obtain ⟨w, hw, hrows⟩ := hmatches.exists_of_ok hv
    obtain ⟨l, rfl, -, hmutable⟩ := hformed.exists_list (hlist hwanted) hw
    refine ⟨l, by rw [hw]; rfl, hrows, ?_⟩
    rintro rfl
    rw [hmutable, decide_eq_true_iff]
    exact hc.style_of_adapts hown
  · obtain ⟨w, hw, hrows⟩ := hmatches.exists_of_ok hv
    obtain ⟨source, hsource, htuples⟩ := hformed.exists_toSource (htype ▸ hset) hw
    exact ⟨source, by rw [hw]; exact hsource, htuples.trans hrows⟩

end Formed

end Calc

/-! ### Adapting compiled expressions -/

/-- An expression can be compiled to a style if one of the requested ones can be met, and the first
of these decides. A set is then the same in every context, as a list or to be walked if that has
been asked for. Whatever is asked for, a set that declares a list comes to one that is mutable just
if it is declared to be. -/
theorem Compiler.compileAs_sound {compiler : Compiler} {exp : Exp}
    (hcompile : compiler.compile exp = .ok c)
    (hlimit : compiler.config.resultLimit ≤ Int64.maxValue.toInt) (styles : List ResultStyle) :
    ((∃ own, compiler.compileAs exp styles = .ok own) ↔
      ∃ style ∈ styles, c.type.meets style = true) ∧
    (∀ own, compiler.compileAs exp styles = .ok own →
      ∃ decided, styles.find? c.type.meets = some decided ∧
        compiler.compileAs exp [decided] = .ok own ∧
        (c.type.isSet = true → ∀ ctx, c.AdaptedIn ctx own decided)) ∧
    (∀ request own, compiler.answer exp request = .ok own →
      ∀ ctx l, own.evaluate ctx >>= Value.toList = .ok l →
        (own.style = .mutableList → l.isMutable = true) ∧
        (own.style = .list → l.isMutable = false)) := by
  have hc : compiler.Makes c := (compiler.meets_compile exp).of_ok hcompile
  have hadapt : ∀ requested, compiler.compileAs exp requested =
      c.adapt requested compiler.config.limit := by
    intro requested
    rw [compileAs, hcompile]
    rfl
  refine ⟨?_, fun own hown => ?_, fun request own hown ctx l hl => ?_⟩
  · simp only [hadapt]
    exact hc.exists_adapt_iff
  · rw [hadapt] at hown
    obtain ⟨style, hstyle, hmeets⟩ := hc.exists_adapt_iff.mp ⟨own, hown⟩
    obtain ⟨decided, hfind⟩ := Option.isSome_iff_exists.mp
      (List.find?_isSome.mpr ⟨style, hstyle, hmeets⟩)
    obtain ⟨other, hother, hsingle, hadapts⟩ := hc.exists_adapt_eq hfind
    obtain rfl := Except.ok.inj (hown.symm.trans hother)
    exact ⟨decided, hfind, (hadapt _).trans hsingle, fun hset => hc.adaptedIn hset hlimit hadapts⟩
  · have hformed : compiler.Makes own := (compiler.meets_answer exp request).of_ok hown
    constructor <;> intro hstyle
    · rw [hformed.isMutable_eq (by simp [hstyle, ResultStyle.isList]) hl, hstyle]
      rfl
    · rw [hformed.isMutable_eq (by simp [hstyle, ResultStyle.isList]) hl, hstyle]
      rfl

namespace Sales

/-- The four pairs of a year and a town are packed under a limit of four. -/
theorem yearlyTowns_packed :
    ∃ own l, (Compiler.mk .sales { resultLimit := 4 }).compileAs yearlyTowns
        [.value, .mutableList, .any] = .ok own ∧
      own.evaluate start >>= Value.toList = .ok l ∧ l.rows.length = 4 ∧ l.isMutable = true := by
  have hcompile : (Compiler.mk .sales { resultLimit := 4 }).compile yearlyTowns = .ok _ := rfl
  have hsound := Compiler.compileAs_sound hcompile (by decide) [.value, .mutableList, .any]
  obtain ⟨own, hown⟩ := hsound.1.mpr ⟨.mutableList, by simp, rfl⟩
  obtain ⟨decided, hdecided, -, hadapted⟩ := hsound.2.1 own hown
  obtain rfl : ResultStyle.mutableList = decided := Option.some.inj hdecided
  obtain ⟨l, hl, hrows, hmutable⟩ := (hadapted rfl start).list rfl _ rfl
  refine ⟨own, l, hown, hl, ?_, hmutable rfl⟩
  rw [hrows]
  rfl

end Sales

end CubeCalc
