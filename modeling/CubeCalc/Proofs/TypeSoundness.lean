import CubeCalc.Proofs.RowBound
import CubeCalc.Proofs.Standing
/-!
# Types describe rows

The type of a member, a tuple or a set says how many members a row has and which hierarchies it has
members of. The number is always right. The hierarchies are right as long as the elements of each
set literal are of one type, because a literal takes the type of its first element for all.
-/

namespace CubeCalc

open Outcome

/-- The tuples that a value is made of. A member is a tuple of one. -/
def Value.rows : Value → List Tuple
  | .member m => [[m]]
  | .tuple row => [row]
  | .list l => l.rows
  | .iterable source => source.tuples
  | _ => []

/-- A row keeps what a type promises. It has as many members as the type has columns, among them one
of each hierarchy that is spanned for certain, and none of a hierarchy that is not even possible. -/
structure StaticType.Describes (type : StaticType) (cube : Cube) (row : Tuple) : Prop where
  length_eq : row.length = type.arity
  certain : ∀ h ∈ cube.hierarchies, type.usesHierarchy h true = true → ∃ m ∈ row, m ∈ h.members
  possible : ∀ h ∈ cube.hierarchies, (∃ m ∈ row, m ∈ h.members) →
    type.usesHierarchy h false = true

variable {cube : Cube} {config : CalcConfig} {c : Calc} {v : Value} {type : StaticType}
  {row : Tuple} {h : Hierarchy}

/-! ### Rows and columns -/

/-- The rows of a value that fits a type have a member for each of the type's columns. -/
theorem Regime.Fits.rows_belong {r : Regime cube config.limit} {style : ResultStyle}
    (hv : r.Fits style v type) (hcolumns : type.hasColumns = true) :
    ∀ row ∈ v.rows, List.Forall₂ r.belongs row type.spans := by
  cases type with
  | member hierarchy? =>
    rcases hv with rfl | ⟨m, rfl, hm⟩
    · simp [Value.rows]
    · simpa [Value.rows] using hm
  | tuple columns =>
    rcases hv with ⟨rfl, -⟩ | ⟨row, rfl, hrow⟩
    · simp [Value.rows]
    · simpa [Value.rows] using hrow
  | set element =>
    rcases hv with ⟨-, l, rfl, hl, -⟩ | ⟨-, source, rfl, hsource⟩
    · exact hl.rows_belong
    · exact hsource.rows_belong
  | _ => cases hcolumns

theorem exists_span_of_forall₂ {hs : List Hierarchy} {m : Member}
    (hrow : List.Forall₂ (fun m h => m ∈ Hierarchy.members h) row hs) (hm : m ∈ row) :
    ∃ own ∈ hs, m ∈ own.members := by
  induction hrow with
  | nil => cases hm
  | @cons first own rest hs hfirst _ ih =>
    rcases List.mem_cons.mp hm with rfl | hrest
    · exact ⟨own, List.mem_cons_self, hfirst⟩
    · obtain ⟨other, hother, hmem⟩ := ih hrest
      exact ⟨other, List.mem_cons_of_mem _ hother, hmem⟩

/-- No two hierarchies of a sound cube have a member in common. -/
theorem Cube.IsSound.eq_of_mem_members (hcube : cube.IsSound) {own : Hierarchy} {m : Member}
    (hh : h ∈ cube.hierarchies) (hown : own ∈ cube.hierarchies) (hm : m ∈ h.members)
    (hmown : m ∈ own.members) : h = own := by
  apply hcube.eq_of_name_eq hh hown
  rw [← (hcube.closed h hh).hierarchy_eq m hm, (hcube.closed own hown).hierarchy_eq m hmown]

/-- A type whose columns are filled by a row describes the row. -/
theorem Cube.Admits.describes (hcube : cube.IsSound) (htype : cube.Admits type)
    (hcolumns : type.hasColumns = true)
    (hrow : List.Forall₂ (fun m h => m ∈ Hierarchy.members h) row type.spans) :
    type.Describes cube row where
  length_eq := by rw [htype.arity_eq, hrow.length_eq]
  certain h hh huses :=
    exists_mem_of_forall₂ hrow ((htype.usesHierarchy_iff hcube hcolumns true hh).mp huses)
  possible h hh := by
    rintro ⟨m, hm, hmem⟩
    obtain ⟨own, hown, hmown⟩ := exists_span_of_forall₂ hrow hm
    rw [htype.usesHierarchy_iff hcube hcolumns false hh,
      hcube.eq_of_mem_members hh (htype.spans_mem own hown) hmem hmown]
    exact hown

/-! ### Soundness -/

/-- A compiled calc has rows of its type's arity in every context, and rows that its type describes
wherever contexts are made of members of a sound cube and the elements of each set literal are of
one type. -/
theorem Compiler.rows_described {compiler : Compiler} {exp : Exp} {request : Compiler.Request}
    (hcompile : compiler.answer exp request = .ok c) (hcolumns : c.type.hasColumns = true)
    {ctx : Context} (hv : c.evaluate ctx = .ok v) :
    (∀ row ∈ v.rows, row.length = c.type.arity) ∧
    (compiler.cube.IsSound → ctx.Stands compiler.cube → c.everySet Calc.uniform = true →
      ∀ row ∈ v.rows, c.type.Describes compiler.cube row) := by
  have hc : compiler.Makes c := (compiler.meets_answer exp request).of_ok hcompile
  constructor
  · intro row hrow
    have hfits := (Calc.meets_reports hc ctx).of_ok hv
    rw [hc.admits.arity_eq, (hfits.rows_belong hcolumns row hrow).length_eq]
  · intro hcube hctx huniform row hrow
    have hfits := (Regime.meets_evaluate hc (Regime.suits_sound hcube huniform) hctx).of_ok hv
    exact hc.admits.describes hcube hcolumns (hfits.rows_belong hcolumns row hrow)

namespace Sales

/-- All pairs of a year and a town. -/
def yearlyTowns : Exp := .crossJoin (.children (.member "All Times")) (.members "Town")

def yearlyTownsCalc : Calc :=
  .crossJoin (.memberChildren (.memberLiteral time (.all "Time" "All Times")) .unbounded)
    (.hierarchyMembers town .unbounded) .unbounded

theorem yearlyTowns_described :
    ∃ v, yearlyTownsCalc.evaluate start = .ok v ∧ v.rows.length = 4 ∧
      ∀ row ∈ v.rows, yearlyTownsCalc.type.Describes .sales row := by
  have hcompile : (Compiler.mk .sales {}).answer yearlyTowns .natural = .ok yearlyTownsCalc := rfl
  refine ⟨_, rfl, rfl, ?_⟩
  exact (Compiler.rows_described hcompile rfl rfl).2 Cube.sales_isSound start_stands rfl

/-- The literal begins with a town, so that its year passes for a town, too. -/
def townAndYear : Exp := .set [.member "Oslo", .member "2023"]

def townAndYearCalc : Calc :=
  .setLiteral [.memberLiteral town oslo, .memberLiteral time firstYear] .unbounded

/-- The row of the year has no member of the hierarchy that the type promises for certain, and one
of a hierarchy that the type denies. -/
theorem townAndYear_not_described :
    (Compiler.mk .sales {}).compile townAndYear = .ok townAndYearCalc ∧
    townAndYearCalc.type.hasColumns = true ∧ Cube.sales.IsSound ∧ start.Stands .sales ∧
    ∃ v, townAndYearCalc.evaluate start = .ok v ∧
      ¬∀ row ∈ v.rows, townAndYearCalc.type.Describes .sales row := by
  refine ⟨rfl, rfl, Cube.sales_isSound, start_stands, _, rfl, ?_⟩
  intro hall
  have hyear := hall [firstYear] (List.mem_cons_of_mem _ List.mem_cons_self)
  have htime : time ∈ Cube.sales.hierarchies := List.mem_cons_self
  have hmember : firstYear ∈ time.members := List.get_mem _ _
  have huses := hyear.possible time htime ⟨firstYear, List.mem_cons_self, hmember⟩
  exact absurd huses (by decide)

end Sales

end CubeCalc
