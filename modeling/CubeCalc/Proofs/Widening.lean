import CubeCalc.Calc.Evaluate
import CubeCalc.Proofs.TupleList
/-!
# Lists under wider limits

A list may be alike to one under a narrower limit: it holds the same tuples in the same storage, of
which other slots may be reserved. What is done to both of them comes to alike lists, unless the
narrower limit is exceeded. Values are alike if they are the same up to alike lists.
-/

namespace CubeCalc

open Outcome

variable {limit wider : RowLimit}

/-! ### Storages -/

/-- A number of slots that a wider limit puts to the test is put to the test by a narrower one. -/
theorem RowLimit.ceiling?_any_of_le (hle : limit ≤ wider) {arity needed : Nat}
    (hwider : (wider.ceiling? arity).any (· < needed) = true) :
    (limit.ceiling? arity).any (· < needed) = true := by
  cases hmost : wider.rows? with
  | none => simp [ceiling?, hmost] at hwider
  | some most =>
    obtain ⟨fewer, hfewer, hle⟩ := exists_rows?_of_le hle hmost
    by_cases hbound : most * arity < wordBound
    · have hslots : fewer * arity ≤ most * arity := Nat.mul_le_mul_right arity hle
      have hneeded : most * arity < needed := by simpa [ceiling?, hmost, hbound] using hwider
      simpa [ceiling?, hfewer, Nat.lt_of_le_of_lt hslots hbound] using
        Nat.lt_of_le_of_lt hslots hneeded
    · simp [ceiling?, hmost, hbound] at hwider

theorem RowLimit.follows_ceiling (hle : limit ≤ wider) (arity needed attempted : Nat) :
    Follows Eq
      (if (limit.ceiling? arity).any (· < needed) then limit.check attempted else .ok ())
      (if (wider.ceiling? arity).any (· < needed) then wider.check attempted else .ok ()) := by
  by_cases hwider : (wider.ceiling? arity).any (· < needed) = true
  · rw [if_pos hwider, if_pos (ceiling?_any_of_le hle hwider)]
    exact follows_check hle attempted
  · rw [if_neg hwider]
    split
    · have hall : limit ≤ .unbounded := fun _ _ _ hmost => by simp [unbounded] at hmost
      exact follows_check hall attempted
    · exact .ok rfl

structure Packed.Alike (p q : Packed) : Prop where
  arity_eq : p.arity = q.arity
  data_eq : p.data = q.data

namespace Packed.Alike

variable {p q : Packed}

theorem reserve (hpq : p.Alike q) (hle : limit ≤ wider) (needed : Nat) :
    Follows Alike (p.reserve limit needed) (q.reserve wider needed) := by
  rw [p.reserve_eq_check, q.reserve_eq_check, hpq.arity_eq]
  exact (RowLimit.follows_ceiling hle q.arity needed _).bind fun _ _ _ => .ok ⟨rfl, hpq.data_eq⟩

theorem push (hpq : p.Alike q) (hle : limit ≤ wider) (row : Tuple) :
    Follows Alike (p.push limit row) (q.push wider row) := by
  rw [Packed.push, Packed.push, hpq.arity_eq, hpq.data_eq]
  refine (hpq.reserve hle _).bind fun p q hpq => .ok ⟨hpq.arity_eq, ?_⟩
  simp only [hpq.data_eq]

theorem rows_eq (hpq : p.Alike q) : p.rows = q.rows := by
  obtain ⟨arity, data, capacity⟩ := p
  obtain ⟨_, _, capacity'⟩ := q
  obtain ⟨rfl, rfl⟩ := hpq
  rfl

end Packed.Alike

/-- The same storage, up to what is reserved. -/
inductive Storage.Alike : Storage → Storage → Prop where
  | unary (members : Array Member) : Alike (.unary members) (.unary members)
  | packed {p q : Packed} (hpq : p.Alike q) : Alike (.packed p) (.packed q)
  | delegating (arity : Nat) (rows : Array Tuple) :
    Alike (.delegating arity rows) (.delegating arity rows)

namespace Storage.Alike

variable {s t : Storage}

theorem refl (s : Storage) : s.Alike s := by
  cases s with
  | unary => exact .unary _
  | packed p => exact .packed ⟨rfl, rfl⟩
  | delegating => exact .delegating _ _

theorem arity_eq (hst : s.Alike t) : s.arity = t.arity := by
  cases hst with
  | unary | delegating => rfl
  | packed hpq => exact hpq.arity_eq

theorem length_eq (hst : s.Alike t) : s.length = t.length := by
  cases hst with
  | unary | delegating => rfl
  | packed hpq => simp only [Storage.length, Packed.size, hpq.arity_eq, hpq.data_eq]

theorem rows_eq (hst : s.Alike t) : s.rows = t.rows := by
  cases hst with
  | unary | delegating => rfl
  | packed hpq => exact hpq.rows_eq

theorem push (hst : s.Alike t) (hle : limit ≤ wider) (row : Tuple) :
    Follows Alike (s.push limit row) (t.push wider row) := by
  cases hst with
  | unary members =>
    refine (RowLimit.follows_check hle _).bind fun _ _ _ => ?_
    exact .bind_self _ fun m => .ok (.unary _)
  | packed hpq => exact (hpq.push hle row).bind fun p q hpq => .ok (.packed hpq)
  | delegating arity rows =>
    exact (RowLimit.follows_check hle _).bind fun _ _ _ => .ok (.delegating _ _)

theorem refill (hst : s.Alike t) (rows : List Tuple) : (s.refill rows).Alike (t.refill rows) := by
  cases hst with
  | unary => exact .unary _
  | packed hpq => exact .packed ⟨hpq.arity_eq, rfl⟩
  | delegating => exact .delegating _ _

end Storage.Alike

/-! ### Lists -/

/-- The same list, under a limit that is as wide. -/
structure TupleList.Alike (l l' : TupleList) : Prop where
  storage : l.storage.Alike l'.storage
  isMutable_eq : l.isMutable = l'.isMutable
  limit_le : l.limit ≤ l'.limit

namespace TupleList.Alike

variable {l l' : TupleList}

theorem arity_eq (hl : l.Alike l') : l.arity = l'.arity := hl.storage.arity_eq

theorem length_eq (hl : l.Alike l') : l.length = l'.length := hl.storage.length_eq

theorem rows_eq (hl : l.Alike l') : l.rows = l'.rows := hl.storage.rows_eq

theorem refl (l : TupleList) : l.Alike l := ⟨.refl _, rfl, l.limit.le_refl⟩

theorem fixed (hl : l.Alike l') : l.fixed.Alike l'.fixed := ⟨hl.storage, rfl, hl.limit_le⟩

theorem copy (hl : l.Alike l') : l.copy.Alike l'.copy := ⟨hl.storage, rfl, hl.limit_le⟩

theorem checkMutable_eq (hl : l.Alike l') : l.checkMutable = l'.checkMutable := by
  rw [checkMutable, checkMutable, hl.isMutable_eq]

theorem checkArity_eq (hl : l.Alike l') (arity : Nat) :
    l.checkArity arity = l'.checkArity arity := by
  rw [checkArity, checkArity, hl.arity_eq]

/-- A row of an arity is stored in both lists, or in none. -/
theorem store (hl : l.Alike l') (arity : Nat) (row : Outcome Tuple) :
    Follows Alike (l.addRow arity row) (l'.addRow arity row) := by
  rw [addRow, addRow, hl.checkMutable_eq, hl.checkArity_eq]
  refine .bind_self _ fun _ => .bind_self _ fun _ => .bind_self row fun own => ?_
  exact (hl.storage.push hl.limit_le own).bind fun s t hst =>
    .ok ⟨hst, hl.isMutable_eq, hl.limit_le⟩

theorem push (hl : l.Alike l') (row : Tuple) : Follows Alike (l.push row) (l'.push row) :=
  hl.store row.length (.ok row)

theorem sortBy (hl : l.Alike l') (compare : Tuple → Tuple → Ordering) :
    Follows Alike (l.sortBy compare) (l'.sortBy compare) := by
  rw [TupleList.sortBy, TupleList.sortBy, hl.checkMutable_eq, hl.rows_eq]
  exact .bind_self _ fun _ => .ok ⟨hl.storage.refill _, hl.isMutable_eq, hl.limit_le⟩

end TupleList.Alike

namespace TupleList

theorem new_alike (arity : Nat) (hle : limit ≤ wider) :
    (new arity limit).Alike (new arity wider) := by
  refine ⟨?_, rfl, hle⟩
  match arity with
  | 0 => exact .delegating _ _
  | 1 => exact .unary _
  | arity + 2 => exact .packed ⟨rfl, rfl⟩

theorem ofMembers_follows (members : List Member) (hle : limit ≤ wider) :
    Follows Alike (ofMembers members limit) (ofMembers members wider) :=
  (RowLimit.follows_check hle members.length).bind fun _ _ _ => .ok ⟨.unary _, rfl, hle⟩

/-- Where there are slots for as many rows as are asked for, no limit makes a difference. -/
theorem withCapacity_follows {arity count : Nat} (hslots : count * max arity 1 < Packed.slotBound)
    (hle : limit ≤ wider) :
    Follows Alike (withCapacity arity count limit) (withCapacity arity count wider) := by
  match arity with
  | 0 => exact .ok ⟨.delegating _ _, rfl, hle⟩
  | 1 =>
    have hclamp : ∀ limit : RowLimit, limit.clamp count < Packed.slotBound := fun limit =>
      Nat.lt_of_le_of_lt (limit.clamp_le count) (by simpa using hslots)
    simp only [withCapacity, Storage.withCapacity, hclamp, if_true]
    exact .ok ⟨.unary _, rfl, hle⟩
  | arity + 2 =>
    have hpacked : ∀ limit : RowLimit, ∃ p : Packed, p.Stores [] ∧ p.arity = arity + 2 ∧
        Packed.withCapacity (arity + 2) count limit = .ok p := by
      intro limit
      have hmeets := packed_withCapacity_meets (arity + 2) count limit
      cases hcase : Packed.withCapacity (arity + 2) count limit with
      | ok p =>
        obtain ⟨hp, harity⟩ := hmeets.of_ok hcase
        exact ⟨p, hp, harity, rfl⟩
      | error failure =>
        rw [Nat.max_eq_left (by omega)] at hslots
        rcases hmeets.of_error hcase with ⟨-, hzero⟩ | ⟨-, hmany⟩
        · omega
        · omega
    obtain ⟨p, hp, harity, hcase⟩ := hpacked limit
    obtain ⟨q, hq, harity', hcase'⟩ := hpacked wider
    simp only [withCapacity, Storage.withCapacity, hcase, hcase']
    refine .ok ⟨.packed ⟨harity.trans harity'.symm, ?_⟩, rfl, hle⟩
    rw [← Array.toList_inj, hp.data_eq, hq.data_eq]

end TupleList

/-! ### Sources and values -/

inductive TupleSource.Alike : TupleSource → TupleSource → Prop where
  | list {l l' : TupleList} (hl : l.Alike l') : Alike (.list l) (.list l')
  | product {l l' m m' : TupleList} (hl : l.Alike l') (hm : m.Alike m') :
    Alike (.product l m) (.product l' m')
  | rows (arity : Nat) (tuples : List Tuple) : Alike (.rows arity tuples) (.rows arity tuples)

namespace TupleSource.Alike

variable {source source' : TupleSource}

theorem refl (source : TupleSource) : source.Alike source := by
  cases source with
  | list l => exact .list (.refl l)
  | product l m => exact .product (.refl l) (.refl m)
  | rows => exact .rows _ _

theorem arity_eq (hsource : source.Alike source') : source.arity = source'.arity := by
  cases hsource with
  | list hl => exact hl.arity_eq
  | product hl hm => rw [arity, arity, hl.arity_eq, hm.arity_eq]
  | rows => rfl

theorem tuples_eq (hsource : source.Alike source') : source.tuples = source'.tuples := by
  cases hsource with
  | list hl => exact hl.rows_eq
  | product hl hm =>
    simp only [tuples, productRows, hl.rows_eq, hm.rows_eq, hl.arity_eq, hm.arity_eq]
  | rows => rfl

theorem reach_eq (hsource : source.Alike source') (row : Tuple) :
    source.reach row = source'.reach row := by
  cases hsource <;> rfl

theorem wholeRow_eq (hsource : source.Alike source') (row : Tuple) :
    source.wholeRow row = source'.wholeRow row := by
  have harity := hsource.arity_eq
  cases hsource with
  | rows => rfl
  | list | product => simp only [wholeRow, harity]

theorem materialize (hsource : source.Alike source') (hle : limit ≤ wider) :
    Follows TupleList.Alike (source.materialize limit) (source'.materialize wider) := by
  rw [TupleSource.materialize, TupleSource.materialize, hsource.arity_eq, hsource.tuples_eq]
  refine follows_foldlM (TupleList.new_alike _ hle) fun l l' row _ hl => ?_
  rw [addTo, addTo, hsource.reach_eq, hsource.wholeRow_eq, hsource.arity_eq]
  exact .bind_self _ fun _ => hl.store _ _

/-- Walks over alike sources visit the same rows in the same contexts. -/
theorem walk {β γ : Type} {R : β → γ → Prop} (hsource : source.Alike source') (ctx : Context)
    {start : β} {start' : γ} (hstart : R start start') {visit : β → Tuple → Context → Outcome β}
    {visit' : γ → Tuple → Context → Outcome γ}
    (hvisit : ∀ result result' row here, R result result' →
      Follows R (visit result row here) (visit' result' row here)) :
    Follows R (source.walk ctx start visit) (source'.walk ctx start' visit') := by
  rw [TupleSource.walk, TupleSource.walk, hsource.tuples_eq, hsource.arity_eq]
  refine Follows.bind (R := fun state state' => R state.1 state'.1 ∧ state.2 = state'.2) ?_
    fun state state' hstate => .ok hstate.1
  refine follows_foldlM ⟨hstart, rfl⟩ fun state state' row _ hstate => ?_
  obtain ⟨result, here⟩ := state
  obtain ⟨result', _⟩ := state'
  obtain ⟨hresult, rfl⟩ := hstate
  simp only [hsource.reach_eq]
  refine .bind_self (source'.reach row) fun _ => .bind_self (here.enter _ row) fun moved => ?_
  exact (hvisit result result' row moved hresult).bind fun _ _ h => .ok ⟨h, rfl⟩

end TupleSource.Alike

theorem nonEmptyProduct_follows {l l' m m' : TupleList} (hl : l.Alike l') (hm : m.Alike m')
    (hle : limit ≤ wider) (ctx : Context) :
    Follows TupleList.Alike (nonEmptyProduct ctx l m limit) (nonEmptyProduct ctx l' m' wider) := by
  have hrows := (TupleSource.Alike.product hl hm).tuples_eq
  rw [TupleSource.tuples, TupleSource.tuples] at hrows
  rw [nonEmptyProduct, nonEmptyProduct, hl.arity_eq, hm.arity_eq, hrows]
  refine follows_foldlM (TupleList.new_alike _ hle) fun kept kept' row _ hkept => ?_
  refine .bind_self (ctx.valueAt row) fun v => ?_
  split
  · exact .ok hkept
  · exact hkept.push row

/-- The same value, or a set that is alike. -/
inductive Value.Alike : Value → Value → Prop where
  | same (v : Value) : Alike v v
  | list {l l' : TupleList} (hl : l.Alike l') : Alike (.list l) (.list l')
  | iterable {source source' : TupleSource} (hsource : source.Alike source') :
    Alike (.iterable source) (.iterable source')

namespace Value.Alike

variable {v v' : Value}

/-- All readers but those of sets read the same. -/
theorem toBoolean_eq (hv : v.Alike v') : v.toBoolean = v'.toBoolean := by
  cases hv <;> rfl

theorem toNumber_eq (hv : v.Alike v') : v.toNumber = v'.toNumber := by
  cases hv <;> rfl

theorem toMember_eq (hv : v.Alike v') : v.toMember = v'.toMember := by
  cases hv <;> rfl

theorem toTuple_eq (hv : v.Alike v') : v.toTuple = v'.toTuple := by
  cases hv <;> rfl

theorem observation_eq (hv : v.Alike v') : v.observation = v'.observation := by
  cases hv <;> rfl

theorem toList (hv : v.Alike v') : Follows TupleList.Alike v.toList v'.toList := by
  cases hv with
  | same v => exact Follows.refl TupleList.Alike.refl _
  | list hl => exact .ok hl
  | iterable => exact .failed _

theorem toSource (hv : v.Alike v') : Follows TupleSource.Alike v.toSource v'.toSource := by
  cases hv with
  | same v => exact Follows.refl TupleSource.Alike.refl _
  | list hl => exact .ok (.list hl)
  | iterable hsource => exact .ok hsource

end Value.Alike

end CubeCalc
