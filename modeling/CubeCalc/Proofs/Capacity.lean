import CubeCalc.Proofs.ListRefinement
import Mathlib.Algebra.Group.Nat.Defs
import Mathlib.Data.List.Infix
/-!
# Reserved slots

Packed rows reserve slots ahead. However rows come and go, there are never fewer slots than members
and never more than the limit allows, and a row has either all of its slots or none. What the limit
says is held against rows, and slots are reserved only for rows that it allows.
-/

namespace CubeCalc

open Outcome

/-! ### Limits on slots -/

namespace RowLimit

variable {limit : RowLimit} {arity slots fewer : Nat}

/-- As many slots as there may be under the limit, if it says anything about slots. -/
def capped (limit : RowLimit) (arity slots : Nat) : Nat :=
  (limit.ceiling? arity).elim slots (min slots)

theorem ceiling?_eq_some_iff {ceiling : Nat} :
    limit.ceiling? arity = some ceiling ↔
      ∃ most, limit.rows? = some most ∧ most * arity < wordBound ∧ most * arity = ceiling := by
  simp [ceiling?, Option.bind_eq_some_iff]

theorem capped_eq_min {ceiling : Nat} (hceiling : limit.ceiling? arity = some ceiling) :
    limit.capped arity slots = min slots ceiling := by
  rw [capped, hceiling]
  rfl

theorem capped_eq_self (hceiling : limit.ceiling? arity = none) :
    limit.capped arity slots = slots := by
  rw [capped, hceiling]
  rfl

theorem capped_mono (limit : RowLimit) (arity : Nat) (hle : fewer ≤ slots) :
    limit.capped arity fewer ≤ limit.capped arity slots := by
  cases hceiling : limit.ceiling? arity with
  | none => rwa [capped_eq_self hceiling, capped_eq_self hceiling]
  | some ceiling =>
    rw [capped_eq_min hceiling, capped_eq_min hceiling]
    omega

theorem capped_le_of_rows {most : Nat} (hmost : limit.rows? = some most)
    (hword : most * arity < wordBound) : limit.capped arity slots ≤ most * arity := by
  rw [capped_eq_min (ceiling?_eq_some_iff.mpr ⟨most, hmost, hword, rfl⟩)]
  exact Nat.min_le_right _ _

/-- What is capped stays whole, since limits are in rows. -/
theorem dvd_capped (hslots : arity ∣ slots) : arity ∣ limit.capped arity slots := by
  cases hceiling : limit.ceiling? arity with
  | none => rwa [capped_eq_self hceiling]
  | some ceiling =>
    obtain ⟨most, -, -, rfl⟩ := ceiling?_eq_some_iff.mp hceiling
    rw [capped_eq_min hceiling, Nat.min_def]
    split
    · exact hslots
    · exact Nat.dvd_mul_left _ _

/-- The slots of rows that are allowed are not capped. -/
theorem le_capped {count : Nat} (hallows : limit.Allows count) (hle : count * arity ≤ slots) :
    count * arity ≤ limit.capped arity slots := by
  cases hceiling : limit.ceiling? arity with
  | none => rwa [capped_eq_self hceiling]
  | some ceiling =>
    obtain ⟨most, hmost, -, rfl⟩ := ceiling?_eq_some_iff.mp hceiling
    rw [capped_eq_min hceiling]
    exact Nat.le_min.mpr ⟨hle, Nat.mul_le_mul_right arity (hallows most hmost)⟩

end RowLimit

/-! ### Growing -/

theorem saturated_eq {n : Nat} (hword : n < wordBound) : saturated n = n :=
  Nat.min_eq_left (Nat.le_pred_of_lt hword)

theorem wordBound_eq : wordBound = 18446744073709551616 := rfl

/-- What is missing to whole rows is added. -/
theorem exists_roundUp_eq {arity : Nat} (harity : 0 < arity) (wanted : Nat) :
    ∃ whole, arity ∣ whole ∧ wanted ≤ whole ∧ whole < wanted + arity ∧
      (if wanted % arity = 0 then wanted else wanted + (arity - wanted % arity)) = whole := by
  have hpart : wanted % arity < arity := Nat.mod_lt wanted harity
  by_cases hwhole : wanted % arity = 0
  · exact ⟨wanted, Nat.dvd_of_mod_eq_zero hwhole, Nat.le_refl _, by omega, if_pos hwhole⟩
  · refine ⟨wanted + (arity - wanted % arity), ?_, by omega, by omega, if_neg hwhole⟩
    have hsplit : arity * (wanted / arity) + wanted % arity = wanted := Nat.div_add_mod wanted arity
    have hnext : wanted + (arity - wanted % arity) = arity * (wanted / arity + 1) := by
      rw [Nat.mul_succ]
      omega
    rw [hnext]
    exact Nat.dvd_mul_right _ _

namespace Packed

variable {p q : Packed} {limit : RowLimit} {needed : Nat}

/-- Nothing saturates while the slots that are needed can be counted in two bits less than a
word. -/
theorem exists_grownCapacity_eq (limit : RowLimit) (harity : 0 < p.arity) (hle : p.arity ≤ needed)
    (hneeded : needed < 2 ^ 62) (hcapacity : p.capacity < needed) :
    ∃ whole, p.grownCapacity (limit.ceiling? p.arity) needed = limit.capped p.arity whole ∧
      p.arity ∣ whole ∧ needed ≤ whole ∧ p.capacity * 3 / 2 + 1 ≤ whole := by
  have hthird : saturated (p.capacity * 3) = p.capacity * 3 := by
    apply saturated_eq
    rw [wordBound_eq]
    omega
  obtain ⟨whole, hdvd, hwanted, hbelow, hwhole⟩ :=
    exists_roundUp_eq harity (max (p.capacity * 3 / 2 + 1) needed)
  have hgap : ∀ n, n ≤ p.arity → saturated (max (p.capacity * 3 / 2 + 1) needed + n) =
      max (p.capacity * 3 / 2 + 1) needed + n := by
    intro n hn
    apply saturated_eq
    rw [wordBound_eq]
    omega
  refine ⟨whole, ?_, hdvd, by omega, by omega⟩
  unfold grownCapacity
  simp only [hthird, hgap _ (Nat.sub_le _ _), hwhole]
  rfl

/-- There are slots for all members, whole rows of them, and no more than the limit allows. -/
structure IsRoomy (p : Packed) (limit : RowLimit) : Prop where
  size_data : p.data.size = p.size * p.arity
  size_le : p.data.size ≤ p.capacity
  whole : p.arity ∣ p.capacity
  capacity_le : ∀ most, limit.rows? = some most → most * p.arity < wordBound →
    p.capacity ≤ most * p.arity

/-- Slots are never given back, and if there are more, then by half of what was there or as far as
the limit goes. -/
structure GrownFrom (p q : Packed) (limit : RowLimit) : Prop where
  arity_eq : p.arity = q.arity
  capacity_eq_or : p.capacity = q.capacity ∨
    q.capacity < p.capacity ∧ limit.capped q.arity (q.capacity * 3 / 2 + 1) ≤ p.capacity

theorem GrownFrom.refl (p : Packed) (limit : RowLimit) : p.GrownFrom p limit := ⟨rfl, .inl rfl⟩

theorem GrownFrom.trans {r : Packed} (hpq : p.GrownFrom q limit) (hqr : q.GrownFrom r limit) :
    p.GrownFrom r limit := by
  refine ⟨hpq.arity_eq.trans hqr.arity_eq, ?_⟩
  rcases hpq.capacity_eq_or with hsame | ⟨hmore, hgrown⟩
  · rw [hsame]
    exact hqr.capacity_eq_or
  · rcases hqr.capacity_eq_or with hsame | ⟨hmore', hgrown'⟩
    · rw [← hsame, ← hqr.arity_eq]
      exact .inr ⟨hmore, hgrown⟩
    · exact .inr ⟨Nat.lt_trans hmore' hmore, by omega⟩

/-- The packed rows with other members, after room has been made for one more row. -/
def enlarged (p : Packed) (limit : RowLimit) (data : Array Member) : Packed :=
  ⟨p.arity, data, p.reservedCapacity limit (p.data.size + p.arity)⟩

namespace Stores

variable {rows : List Tuple}

theorem size_data_eq (hp : p.Stores rows) : p.data.size = p.size * p.arity := by
  rw [hp.size_data, hp.size_eq]

/-- The slots that are reserved anew suffice for one more row. -/
theorem grownCapacity_spec (hp : p.Stores rows) (hallows : limit.Allows (rows.length + 1))
    (hslots : (rows.length + 1) * p.arity < 2 ^ 62)
    (hfull : p.capacity < (rows.length + 1) * p.arity) :
    let grown := p.grownCapacity (limit.ceiling? p.arity) ((rows.length + 1) * p.arity)
    (rows.length + 1) * p.arity ≤ grown ∧ p.arity ∣ grown ∧
      (∀ most, limit.rows? = some most → most * p.arity < wordBound → grown ≤ most * p.arity) ∧
      limit.capped p.arity (p.capacity * 3 / 2 + 1) ≤ grown := by
  intro grown
  obtain ⟨whole, hgrown, hdvd, hneeds, hhalf⟩ := exists_grownCapacity_eq limit
    hp.arity_pos (Nat.le_mul_of_pos_left _ (Nat.succ_pos _)) hslots hfull
  have hcapped : grown = limit.capped p.arity whole := hgrown
  rw [hcapped]
  refine ⟨RowLimit.le_capped hallows hneeds, RowLimit.dvd_capped hdvd, ?_,
    limit.capped_mono p.arity hhalf⟩
  intro most hmost hword
  exact RowLimit.capped_le_of_rows hmost hword

/-- With another row, the slots are roomy again. -/
theorem isRoomy_of_reserved (hp : p.Stores rows) (hroom : p.IsRoomy limit)
    (hallows : limit.Allows (rows.length + 1)) (hslots : (rows.length + 1) * p.arity < 2 ^ 62)
    {data : Array Member} (hdata : data.size = (rows.length + 1) * p.arity) :
    (p.enlarged limit data).IsRoomy limit ∧ (p.enlarged limit data).GrownFrom p limit := by
  have hneeded : p.data.size + p.arity = (rows.length + 1) * p.arity := by
    rw [hp.size_data, Nat.succ_mul]
  have hsize : data.size = data.size / p.arity * p.arity := by
    rw [hdata, Nat.mul_div_cancel _ hp.arity_pos]
  have hcapacity : (p.enlarged limit data).capacity =
      p.reservedCapacity limit ((rows.length + 1) * p.arity) :=
    congrArg (p.reservedCapacity limit) hneeded
  by_cases hle : (rows.length + 1) * p.arity ≤ p.capacity
  · have hkept : (p.enlarged limit data).capacity = p.capacity := by
      rw [hcapacity, reservedCapacity, if_pos hle]
    refine ⟨⟨hsize, ?_, ?_, ?_⟩, rfl, .inl hkept⟩ <;> rw [hkept]
    · exact hdata.trans_le hle
    · exact hroom.whole
    · exact hroom.capacity_le
  · have hfull : p.capacity < (rows.length + 1) * p.arity := Nat.lt_of_not_le hle
    obtain ⟨henough, hdvd, hmost, hhalf⟩ := hp.grownCapacity_spec hallows hslots hfull
    have hgrown : (p.enlarged limit data).capacity =
        p.grownCapacity (limit.ceiling? p.arity) ((rows.length + 1) * p.arity) := by
      rw [hcapacity, reservedCapacity, if_neg hle]
    refine ⟨⟨hsize, ?_, ?_, ?_⟩, rfl, .inr ⟨?_, ?_⟩⟩ <;> rw [hgrown]
    · exact hdata.trans_le henough
    · exact hdvd
    · exact hmost
    · exact Nat.lt_of_lt_of_le hfull henough
    · exact hhalf

/-- With no more rows than before, nothing is reserved. -/
theorem isRoomy_of_le (hp : p.Stores rows) (hroom : p.IsRoomy limit) {kept : List Tuple}
    {data : Array Member} (hkept : Stores ⟨p.arity, data, p.capacity⟩ kept)
    (hle : kept.length ≤ rows.length) :
    IsRoomy ⟨p.arity, data, p.capacity⟩ limit where
  size_data := hkept.size_data_eq
  size_le := by
    refine Nat.le_trans ?_ hroom.size_le
    rw [hkept.size_data, hp.size_data]
    exact Nat.mul_le_mul_right p.arity hle
  whole := hroom.whole
  capacity_le := hroom.capacity_le

end Stores

end Packed

/-! ### Making packed rows -/

namespace Packed

variable {arity count : Nat} {limit : RowLimit} {p : Packed}

/-- Slots can be reserved as long as there are as many, as far as the limit allows for the rows. -/
theorem capped_lt_slotBound_iff :
    limit.capped arity (saturated (count * arity)) < slotBound ↔
      limit.clamp count * arity < slotBound := by
  have hslots : slotBound = 1152921504606846976 := rfl
  have hword := wordBound_eq
  cases hmost : limit.rows? with
  | none =>
    have hceiling : limit.ceiling? arity = none := by simp [RowLimit.ceiling?, hmost]
    rw [RowLimit.capped_eq_self hceiling, saturated, RowLimit.clamp, hmost]
    simp only
    omega
  | some most =>
    have hclamp : limit.clamp count * arity = min (count * arity) (most * arity) := by
      rw [RowLimit.clamp, hmost]
      exact (Nat.mul_min_mul_right _ _ _).symm
    rw [hclamp]
    by_cases hbound : most * arity < wordBound
    · rw [RowLimit.capped_eq_min (RowLimit.ceiling?_eq_some_iff.mpr ⟨most, hmost, hbound, rfl⟩),
        saturated]
      omega
    · have hceiling : limit.ceiling? arity = none := by simp [RowLimit.ceiling?, hmost, hbound]
      rw [RowLimit.capped_eq_self hceiling, saturated]
      omega

theorem dvd_capped_saturated (hbound : limit.capped arity (saturated (count * arity)) < slotBound) :
    arity ∣ limit.capped arity (saturated (count * arity)) := by
  by_cases hword : count * arity < wordBound
  · rw [saturated_eq hword]
    exact RowLimit.dvd_capped (Nat.dvd_mul_left _ _)
  · -- A reservation that saturates is made only if the limit cuts it down to whole rows.
    have hsaturated : saturated (count * arity) = wordBound - 1 :=
      Nat.min_eq_right (Nat.le_trans (Nat.sub_le _ _) (Nat.le_of_not_lt hword))
    rw [hsaturated] at hbound ⊢
    cases hceiling : limit.ceiling? arity with
    | none =>
      rw [RowLimit.capped_eq_self hceiling] at hbound
      exact absurd hbound (by decide)
    | some ceiling =>
      obtain ⟨most, -, hmost, rfl⟩ := RowLimit.ceiling?_eq_some_iff.mp hceiling
      rw [RowLimit.capped_eq_min hceiling, Nat.min_eq_right (by omega)]
      exact Nat.dvd_mul_left _ _

theorem withCapacity_eq (harity : 0 < arity) (count : Nat) (limit : RowLimit) :
    withCapacity arity count limit =
      if limit.clamp count * arity < slotBound then
        .ok ⟨arity, #[], limit.capped arity (saturated (count * arity))⟩
      else violate .capacityOverflow := by
  rw [withCapacity, if_neg (Nat.ne_of_gt harity), if_congr capped_lt_slotBound_iff.symm rfl rfl]
  rfl

theorem isRoomy_withCapacity (hmake : withCapacity arity count limit = .ok p) :
    p.IsRoomy limit := by
  rcases Nat.eq_zero_or_pos arity with rfl | harity
  · cases hmake
  · rw [withCapacity_eq harity] at hmake
    split at hmake
    · next hbound =>
      rw [← Except.ok.inj hmake]
      refine ⟨by simp [size], Nat.zero_le _, ?_, fun most hmost hword => ?_⟩
      · exact dvd_capped_saturated (capped_lt_slotBound_iff.mpr hbound)
      · exact RowLimit.capped_le_of_rows hmost hword
    · cases hmake

end Packed

/-! ### Lists over packed rows -/

theorem PlainList.isCountable_of_slots {plain : PlainList} (hslots : plain.slots < 2 ^ 62) :
    plain.IsCountable := by
  change plain.slots < wordBound
  rw [wordBound_eq]
  omega

/-- The list stands for a plain list, and its packed rows are roomy. -/
structure TupleList.Packs (l : TupleList) (plain : PlainList) (p : Packed) : Prop where
  represents : l.Represents plain
  storage_eq : l.storage = .packed p
  isRoomy : p.IsRoomy plain.limit

theorem PlainList.allows_of_checkRoom {plain : PlainList} (hroom : plain.checkRoom = .ok ()) :
    plain.limit.Allows (plain.rows.length + 1) := by
  rcases plain.limit.check_cases (plain.rows.length + 1) with ⟨-, hallows⟩ | ⟨most, -, -, hfail⟩
  · exact hallows
  · rw [checkRoom, hfail] at hroom
    cases hroom

namespace TupleList.Packs

variable {l : TupleList} {plain : PlainList} {p : Packed} {rows : List Tuple} {row : Tuple}
  {data : Array Member} {index : Nat}

/-- What a step on a list over packed rows comes to. -/
def Becomes (plain : PlainList) (p : Packed) (after : TupleList) (plainAfter : PlainList) : Prop :=
  plainAfter.limit = plain.limit ∧ ∃ q, after.Packs plainAfter q ∧ q.GrownFrom p plain.limit

theorem stores (hl : l.Packs plain p) : p.Stores plain.rows := by
  have hholds : l.storage.Stores plain.rows := hl.represents.holds
  rw [hl.storage_eq] at hholds
  cases hholds with
  | packed hp => exact hp

theorem arity_eq (hl : l.Packs plain p) : p.arity = plain.arity := by
  have harity := hl.represents.arity_eq
  rwa [TupleList.arity, hl.storage_eq] at harity

theorem of_stores (hl : l.Packs plain p) {q : Packed} (harity : q.arity = p.arity)
    (hq : q.Stores rows) (hroomy : q.IsRoomy plain.limit) :
    Packs { l with storage := .packed q } { plain with rows } q := by
  have hsame : (Storage.packed q).arity = l.storage.arity := by
    rw [hl.storage_eq]
    exact harity
  exact ⟨hl.represents.of_stores (.packed hq) hsame, rfl, hroomy⟩

/-! ### Rows that are kept -/

/-- With no more rows than before, nothing is reserved. -/
theorem keep (hl : l.Packs plain p) (hstores : Packed.Stores ⟨p.arity, data, p.capacity⟩ rows)
    (hle : rows.length ≤ plain.rows.length) :
    Becomes plain p { l with storage := .packed ⟨p.arity, data, p.capacity⟩ }
      { plain with rows } :=
  ⟨rfl, _, hl.of_stores rfl hstores (hl.stores.isRoomy_of_le hl.isRoomy hstores hle), rfl,
    .inl rfl⟩

theorem set (hl : l.Packs plain p) (index : Nat) (row : Tuple) :
    Matches (fun a b => Becomes plain p a.2 b.2) (l.set index row) (plain.set index row) := by
  rw [TupleList.set, PlainList.set, hl.represents.checkMutable_eq, hl.represents.checkArity_eq,
    hl.represents.length_eq, hl.storage_eq]
  refine .bind_self _ fun _ _ => .bind_self _ fun _ hrow => .bind_self _ fun _ hindex => ?_
  have hlength := (Represents.length_of_checkRow hrow).trans hl.arity_eq.symm
  have hset := hl.stores.set hlength (Represents.lt_of_checkIndex hindex)
  exact .ok (hl.keep hset (Nat.le_of_eq List.length_set))

theorem remove (hl : l.Packs plain p) (index : Nat) :
    Matches (fun a b => Becomes plain p a.2 b.2) (l.remove index) (plain.remove index) := by
  rw [TupleList.remove, PlainList.remove, hl.represents.checkMutable_eq, hl.represents.length_eq,
    hl.storage_eq]
  refine .bind_self _ fun _ _ => .bind_self _ fun _ _ => ?_
  exact .ok (hl.keep (hl.stores.remove index) (List.length_eraseIdx_le _ _))

/-- Rows that were there before take the place of all. -/
theorem refill (hl : l.Packs plain p) (hrows : ∀ row ∈ rows, row ∈ plain.rows)
    (hle : rows.length ≤ plain.rows.length) :
    Becomes plain p { l with storage := .packed (p.refill rows) } { plain with rows } :=
  hl.keep (hl.stores.refill fun row hrow => hl.stores.uniform row (hrows row hrow)) hle

theorem clear (hl : l.Packs plain p) : Matches (Becomes plain p) l.clear plain.clear := by
  rw [TupleList.clear, PlainList.clear, hl.represents.checkMutable_eq, hl.storage_eq]
  exact .bind_self _ fun _ _ => .ok (hl.refill (by simp) (Nat.zero_le _))

theorem retain {σ : Type} (hl : l.Packs plain p) (keep : σ → Tuple → Bool × σ) (state : σ) :
    Matches (fun a b => Becomes plain p a.1 b.1)
      (l.retain (fun state row => .ok (keep state row)) state) (plain.retain keep state) := by
  have hkept := Represents.keptRows_sublist keep state plain.rows
  rw [TupleList.retain, PlainList.retain, hl.represents.checkMutable_eq,
    hl.represents.holds.rows_eq, Represents.keepRows_eq, hl.storage_eq]
  exact .bind_self _ fun _ _ => .ok (hl.refill hkept.subset hkept.length_le)

theorem sortBy (hl : l.Packs plain p) {compare : Tuple → Tuple → Ordering}
    (hcompare : Std.TransCmp compare) :
    Matches (Becomes plain p) (l.sortBy compare) (plain.sortBy compare) := by
  rw [TupleList.sortBy, PlainList.sortBy, hl.represents.checkMutable_eq,
    hl.represents.holds.rows_eq, mergeSort_isLE_eq hcompare, hl.storage_eq]
  refine .bind_self _ fun _ _ => .ok (hl.refill (fun _ => (List.mem_insertionSort _).mp) ?_)
  exact Nat.le_of_eq (List.length_insertionSort _ _)

/-! ### Rows that are added -/

/-- Slots are reserved for one row more. -/
theorem add (hl : l.Packs plain p) (hroom : plain.checkRoom = .ok ())
    (hstores : (p.enlarged plain.limit data).Stores rows)
    (hlength : rows.length = plain.rows.length + 1)
    (hslots : rows.length * plain.arity < 2 ^ 62) :
    Becomes plain p { l with storage := .packed (p.enlarged plain.limit data) }
      { plain with rows } := by
  have hdata : data.size = (plain.rows.length + 1) * p.arity := by
    rw [← hlength]
    exact hstores.size_data
  rw [hlength, ← hl.arity_eq] at hslots
  obtain ⟨hroomy, hgrown⟩ := hl.stores.isRoomy_of_reserved hl.isRoomy
    (PlainList.allows_of_checkRoom hroom) hslots hdata
  exact ⟨rfl, _, hl.of_stores rfl hstores hroomy, hgrown⟩

/-- The limit is asked first, and then slots are reserved. -/
theorem reserve_eq (hl : l.Packs plain p) (hcount : plain.IsCountable) :
    p.reserve plain.limit (p.data.size + p.arity) = plain.checkRoom >>= fun _ =>
      .ok { p with capacity := p.reservedCapacity plain.limit (p.data.size + p.arity) } := by
  have hroom := hl.represents.room_eq hcount
  rw [hl.storage_eq, hl.represents.limit_eq, Storage.room, hl.stores.size_eq] at hroom
  rw [hl.stores.reserve_eq, hroom]

theorem push_eq (hl : l.Packs plain p) (hcount : plain.IsCountable) (row : Tuple) :
    l.push row = do
      plain.checkMutable
      plain.checkRow row
      plain.checkRoom
      return { l with storage := .packed (p.enlarged plain.limit (p.data ++ row)) } := by
  rw [TupleList.push, hl.represents.checkMutable_eq, hl.represents.checkArity_eq, hl.storage_eq,
    Storage.push, Packed.push, hl.represents.limit_eq, hl.reserve_eq hcount]
  simp only [bind_assoc, pure_bind, ok_bind]
  rfl

theorem insert_eq (hl : l.Packs plain p) (hcount : plain.IsCountable) (index : Nat) (row : Tuple) :
    l.insert index row = do
      plain.checkMutable
      plain.checkRow row
      PlainList.checkIndex index (plain.rows.length + 1)
      plain.checkRoom
      return { l with storage := .packed (p.enlarged plain.limit
        (p.data.extract 0 (index * p.arity) ++ row ++
          p.data.extract (index * p.arity) p.data.size)) } := by
  rw [TupleList.insert, hl.represents.checkMutable_eq, hl.represents.checkArity_eq,
    hl.represents.length_eq, hl.storage_eq, Storage.insert, Packed.insert,
    hl.represents.limit_eq, hl.reserve_eq hcount]
  simp only [bind_assoc, pure_bind, ok_bind]
  rfl

theorem push (hl : l.Packs plain p) (hcount : plain.IsCountable) (row : Tuple)
    (hslots : ∀ longer, plain.push row = .ok longer → longer.slots < 2 ^ 62) :
    Matches (Becomes plain p) (l.push row) (plain.push row) := by
  rw [hl.push_eq hcount]
  rw [PlainList.push] at hslots ⊢
  refine .bind_self _ fun _ hmutable => .bind_self _ fun _ hrow => .bind_self _ fun _ hroom => ?_
  have hlength := (Represents.length_of_checkRow hrow).trans hl.arity_eq.symm
  refine .ok (hl.add hroom (hl.stores.push hlength _) (by simp) ?_)
  exact hslots { plain with rows := plain.rows ++ [row] } (by rw [hmutable, hrow, hroom]; rfl)

theorem insert (hl : l.Packs plain p) (hcount : plain.IsCountable) (index : Nat) (row : Tuple)
    (hslots : ∀ longer, plain.insert index row = .ok longer →
      longer.slots < 2 ^ 62) :
    Matches (Becomes plain p) (l.insert index row) (plain.insert index row) := by
  rw [hl.insert_eq hcount]
  rw [PlainList.insert] at hslots ⊢
  refine .bind_self _ fun _ hmutable => .bind_self _ fun _ hrow => .bind_self _ fun _ hindex =>
    .bind_self _ fun _ hroom => ?_
  have hlength := (Represents.length_of_checkRow hrow).trans hl.arity_eq.symm
  have hle := Nat.le_of_lt_succ (Represents.lt_of_checkIndex hindex)
  have hlonger := List.length_insertIdx_of_le_length hle row
  refine .ok (hl.add hroom (hl.stores.insert hlength hle _) hlonger ?_)
  exact hslots { plain with rows := plain.rows.insertIdx index row }
    (by rw [hmutable, hrow, hindex, hroom]; rfl)

/-- Rows of a sequence are added one by one, up to the first that is refused. -/
theorem addRows {source : TupleSource} :
    ∀ {rows : List Tuple} {l : TupleList} {plain : PlainList} {p : Packed}, l.Packs plain p →
      (plain.extend rows).1.slots < 2 ^ 62 → (∀ row ∈ rows, row.length = source.arity) →
      Becomes plain p (l.addRows source rows).1 (plain.extend rows).1
  | [], _, plain, p, hl, _, _ => ⟨rfl, p, hl, .refl p plain.limit⟩
  | row :: rest, l, plain, p, hl, hslots, hrows => by
    rw [List.forall_mem_cons] at hrows
    have hcount : plain.IsCountable :=
      PlainList.isCountable_of_slots (Nat.lt_of_le_of_lt (plain.slots_le_extend _) hslots)
    have hpush := hl.push hcount row fun longer hlonger => by
      rw [PlainList.extend, hlonger] at hslots
      exact Nat.lt_of_le_of_lt (longer.slots_le_extend rest) hslots
    rw [TupleList.addRows, TupleSource.addTo_eq hrows.1]
    rw [PlainList.extend] at hslots ⊢
    generalize l.push row = pushed at hpush
    generalize plain.push row = plainPushed at hpush hslots
    cases hpush with
    | failed failure => exact ⟨rfl, p, hl, .refl p plain.limit⟩
    | ok hlonger =>
      obtain ⟨hlimit, q, hq, hgrown⟩ := hlonger
      obtain ⟨hlimit', r, hr, hgrown'⟩ := hq.addRows hslots hrows.2
      rw [hlimit] at hlimit' hgrown'
      exact ⟨hlimit', r, hr, hgrown'.trans hgrown⟩

end TupleList.Packs

/-! ### Steps and runs -/

namespace ListStep

open TupleList.Packs

variable {l : TupleList} {plain : PlainList} {p : Packed}

theorem settle_becomes (hl : l.Packs plain p) {o : Outcome (TupleList × Answer)}
    {plainOutcome : Outcome (PlainList × Answer)}
    (h : Matches (fun a b => Becomes plain p a.1 b.1) o plainOutcome) :
    Becomes plain p (settle l o).1 (settle plain plainOutcome).1 := by
  cases h with
  | failed failure => exact ⟨rfl, p, hl, .refl p plain.limit⟩
  | ok h => exact h

/-- A step leaves a list over roomy packed rows. -/
theorem run_becomes (hl : l.Packs plain p) (step : ListStep) (hslots : plain.slots < 2 ^ 62)
    (hafter : (step.runPlain plain).1.slots < 2 ^ 62) :
    Becomes plain p (step.run l).1 (step.runPlain plain).1 := by
  have hcount : plain.IsCountable := PlainList.isCountable_of_slots hslots
  cases step with
  | push row =>
    refine settle_becomes hl ((hl.push hcount row fun longer hlonger => ?_).map fun _ _ h => h)
    rw [runPlain, hlonger] at hafter
    exact hafter
  | addCurrent cursor row hcurrent hrow =>
    have hadd : l.addCurrent cursor = l.push row := by
      rw [TupleList.addCurrent, hcurrent, ← hrow, TupleList.addRow_eq]
    simp only [run, runPlain, hadd]
    refine settle_becomes hl ((hl.push hcount row fun longer hlonger => ?_).map fun _ _ h => h)
    rw [runPlain, hlonger] at hafter
    exact hafter
  | extendFrom source hsource =>
    simp only [run, runPlain, TupleList.extendFrom]
    exact hl.addRows hafter hsource
  | set index row => exact settle_becomes hl ((hl.set index row).map fun _ _ h => h)
  | insert index row =>
    refine settle_becomes hl
      ((hl.insert hcount index row fun longer hlonger => ?_).map fun _ _ h => h)
    rw [runPlain, hlonger] at hafter
    exact hafter
  | remove index => exact settle_becomes hl ((hl.remove index).map fun _ _ h => h)
  | clear => exact settle_becomes hl (hl.clear.map fun _ _ h => h)
  | retain keep state => exact settle_becomes hl ((hl.retain keep state).map fun _ _ h => h)
  | sortBy compare hcompare => exact settle_becomes hl ((hl.sortBy hcompare).map fun _ _ h => h)
  | fix =>
    have hfixed : l.fixed.Packs { plain with isMutable := false } p :=
      ⟨hl.represents.fixed, hl.storage_eq, hl.isRoomy⟩
    exact ⟨rfl, p, hfixed, .refl p plain.limit⟩
  | copy =>
    have hcopy : l.copy.Packs { plain with isMutable := true } p :=
      ⟨hl.represents.copy, hl.storage_eq, hl.isRoomy⟩
    exact ⟨rfl, p, hcopy, .refl p plain.limit⟩

/-- What some steps come to, one after the other. -/
def after {α : Type} (run : α → ListStep → α × Outcome Answer) (start : α)
    (steps : List ListStep) : α :=
  steps.foldl (fun here step => (run here step).1) start

theorem after_becomes (hl : l.Packs plain p) (steps : List ListStep)
    (hslots : ∀ before, before <+: steps → (after runPlain plain before).slots < 2 ^ 62) :
    Becomes plain p (after run l steps) (after runPlain plain steps) := by
  induction steps generalizing l plain p with
  | nil => exact ⟨rfl, p, hl, .refl p plain.limit⟩
  | cons step rest ih =>
    have hrest : ∀ before, before <+: rest →
        (after runPlain (step.runPlain plain).1 before).slots < 2 ^ 62 :=
      fun before hbefore => hslots (step :: before) ((List.prefix_cons_inj step).mpr hbefore)
    obtain ⟨hlimit, q, hq, hgrown⟩ :=
      run_becomes hl step (hslots [] List.nil_prefix) (hrest [] List.nil_prefix)
    obtain ⟨hlimit', r, hr, hgrown'⟩ := ih hq hrest
    rw [hlimit] at hlimit' hgrown'
    exact ⟨hlimit', r, hr, hgrown'.trans hgrown⟩

end ListStep

/-! ### Making packed lists -/

theorem TupleList.Packs.packed {arity count : Nat} {limit : RowLimit} {l : TupleList}
    (hmake : packed arity count limit = .ok l) :
    ∃ p, l.Packs ⟨arity, [], true, limit⟩ p := by
  have hrepresents := Represents.packed hmake
  obtain ⟨p, hp, hl⟩ := bind_eq_ok_iff.mp hmake
  have hstorage : l.storage = .packed p := by rw [← Except.ok.inj hl]
  exact ⟨p, hrepresents, hstorage, Packed.isRoomy_withCapacity hp⟩

theorem TupleList.exists_packed_iff {arity count : Nat} {limit : RowLimit} :
    (∃ l, packed arity count limit = .ok l) ↔
      0 < arity ∧ limit.clamp count * arity < Packed.slotBound := by
  constructor
  · rintro ⟨l, hmake⟩
    obtain ⟨p, hp, -⟩ := bind_eq_ok_iff.mp hmake
    have harity : 0 < arity := by
      apply Nat.pos_of_ne_zero
      rintro rfl
      cases hp
    refine ⟨harity, ?_⟩
    by_contra hbound
    rw [Packed.withCapacity_eq harity, if_neg hbound] at hp
    cases hp
  · rintro ⟨harity, hbound⟩
    rw [packed, Packed.withCapacity_eq harity, if_pos hbound]
    exact ⟨_, rfl⟩

/-! ### Adding within the limit -/

namespace TupleList.Packs

open ListStep

variable {l longer : TupleList} {plain : PlainList} {p : Packed} {row : Tuple} {step : ListStep}

/-- What asks the limit first and then takes one row more. -/
theorem settle_checkRoom (hl : l.Packs plain p) {o : Outcome TupleList}
    (ho : o = plain.checkRoom >>= fun _ => .ok longer) (hlength : longer.length = p.size + 1) :
    let result := settle l (o.map (·, Answer.done))
    plain.limit.Allows (p.size + 1) ∧ result.2 = .ok .done ∧ result.1.length = p.size + 1 ∨
      ∃ most, plain.limit.rows? = some most ∧ most < p.size + 1 ∧
        result = (l, .error (.error (.limitExceeded (p.size + 1) most))) := by
  intro result
  rw [PlainList.checkRoom, ← hl.stores.size_eq] at ho
  rcases plain.limit.check_cases (p.size + 1) with ⟨hok, hallows⟩ | ⟨most, hmost, hlt, hfail⟩
  · have hresult : result = (longer, .ok .done) := by simp only [result, ho, hok, ok_bind]; rfl
    exact .inl ⟨hallows, congrArg Prod.snd hresult, by rw [hresult, hlength]⟩
  · have hresult : result = (l, .error (.error (.limitExceeded (p.size + 1) most))) := by
      simp only [result, ho, hfail]
      rfl
    exact .inr ⟨most, hmost, hlt, hresult⟩

/-- A row finds room exactly as far as the limit allows, and where it does not the list stays as it
is. -/
theorem run_add (hl : l.Packs plain p) (hcount : plain.IsCountable) (hmutable : l.isMutable = true)
    (hrow : row.length = plain.arity)
    (hstep : step ∈ ListStep.push row :: (List.range (p.size + 1)).map (ListStep.insert · row)) :
    plain.limit.Allows (p.size + 1) ∧ (step.run l).2 = .ok .done ∧
        (step.run l).1.length = p.size + 1 ∨
      ∃ most, plain.limit.rows? = some most ∧ most < p.size + 1 ∧
        step.run l = (l, .error (.error (.limitExceeded (p.size + 1) most))) := by
  have hchecked : plain.checkMutable = .ok () := by
    rw [PlainList.checkMutable, ← hl.represents.isMutable_eq, hmutable]
    rfl
  have hfits : plain.checkRow row = .ok () := if_pos hrow
  have hlength : row.length = p.arity := hrow.trans hl.arity_eq.symm
  rcases List.mem_cons.mp hstep with rfl | hinsert
  · have hpush := hl.push_eq hcount row
    rw [hchecked, hfits] at hpush
    refine hl.settle_checkRoom hpush ?_
    change (p.enlarged plain.limit (p.data ++ row)).size = _
    have hpushed : (p.enlarged plain.limit (p.data ++ row)).Stores (plain.rows ++ [row]) :=
      hl.stores.push hlength _
    rw [hpushed.size_eq, hl.stores.size_eq]
    simp
  · obtain ⟨index, hindex, rfl⟩ := List.mem_map.mp hinsert
    have hle : index ≤ plain.rows.length := by
      rw [← hl.stores.size_eq]
      exact Nat.le_of_lt_succ (List.mem_range.mp hindex)
    have hplace : PlainList.checkIndex index (plain.rows.length + 1) = .ok () :=
      if_pos (Nat.lt_succ_of_le hle)
    have hinserted := hl.insert_eq hcount index row
    rw [hchecked, hfits, hplace] at hinserted
    refine hl.settle_checkRoom hinserted ?_
    change (p.enlarged plain.limit _).size = _
    have hstores : (p.enlarged plain.limit (p.data.extract 0 (index * p.arity) ++ row ++
        p.data.extract (index * p.arity) p.data.size)).Stores (plain.rows.insertIdx index row) :=
      hl.stores.insert hlength hle _
    rw [hstores.size_eq, hl.stores.size_eq, List.length_insertIdx_of_le_length hle]

/-- Nothing that is taken off while slots are reserved is more than what is there: neither what
there is of a row from the arity, nor the slots that are taken from those that there will be. -/
theorem reserve_bounds (hl : l.Packs plain p) (hallows : plain.limit.Allows (p.size + 1))
    (hslots : (p.size + 1) * p.arity < 2 ^ 62) (hfull : p.capacity < (p.size + 1) * p.arity) :
    max (saturated (p.capacity * 3) / 2 + 1) ((p.size + 1) * p.arity) % p.arity ≤ p.arity ∧
      p.data.size ≤ p.grownCapacity (plain.limit.ceiling? p.arity) ((p.size + 1) * p.arity) := by
  refine ⟨Nat.le_of_lt (Nat.mod_lt _ hl.stores.arity_pos), ?_⟩
  rw [hl.stores.size_eq] at hallows hslots hfull ⊢
  obtain ⟨henough, -, -, -⟩ := hl.stores.grownCapacity_spec hallows hslots hfull
  refine Nat.le_trans ?_ henough
  rw [hl.stores.size_data]
  exact Nat.mul_le_mul_right _ (Nat.le_succ _)

end TupleList.Packs

/-- Packed rows of any arity but zero can be reserved as far as the limit allows and there are
slots. From then on, whatever is done to the rows, all slots that are in use are reserved, in whole
rows, and not more than the limit allows. A row is added exactly if the limit allows one more, and
otherwise nothing changes. Slots are reserved anew by half of what there was or as far as the limit
goes, and what is subtracted for that is there. -/
theorem TupleList.packed_stays_roomy (arity count : Nat) (limit : RowLimit) :
    ((∃ l, packed arity count limit = .ok l) ↔
      0 < arity ∧ limit.clamp count * arity < Packed.slotBound) ∧
    ∀ l, packed arity count limit = .ok l → ∀ steps : List ListStep,
      (∀ before, before <+: steps →
        (ListStep.after ListStep.runPlain ⟨arity, [], true, limit⟩ before).slots < 2 ^ 62) →
      let here := ListStep.after ListStep.run l steps
      let plain := ListStep.after ListStep.runPlain ⟨arity, [], true, limit⟩ steps
      ∃ p : Packed, here.storage = .packed p ∧ p.arity = arity ∧ p.IsRoomy limit ∧
        (∀ step : ListStep, (step.runPlain plain).1.slots < 2 ^ 62 →
          ∃ q, (step.run here).1.storage = .packed q ∧ q.IsRoomy limit ∧ q.GrownFrom p limit) ∧
        (here.isMutable = true → ∀ row : Tuple, row.length = arity →
          ∀ step ∈ ListStep.push row :: (List.range (p.size + 1)).map (ListStep.insert · row),
            limit.Allows (p.size + 1) ∧ (step.run here).2 = .ok .done ∧
                (step.run here).1.length = p.size + 1 ∨
              ∃ most, limit.rows? = some most ∧ most < p.size + 1 ∧
                step.run here = (here, .error (.error (.limitExceeded (p.size + 1) most)))) ∧
        (limit.Allows (p.size + 1) → (p.size + 1) * arity < 2 ^ 62 →
          p.capacity < (p.size + 1) * arity →
          max (saturated (p.capacity * 3) / 2 + 1) ((p.size + 1) * arity) % arity ≤ arity ∧
            p.data.size ≤ p.grownCapacity (limit.ceiling? arity) ((p.size + 1) * arity)) := by
  refine ⟨exists_packed_iff, fun l hmake steps hslots => ?_⟩
  intro here plain
  obtain ⟨start, hstart⟩ := Packs.packed hmake
  obtain ⟨hlimit, p, hp, hgrown⟩ := ListStep.after_becomes hstart steps hslots
  have hcount := hslots steps (List.prefix_refl steps)
  have harity : p.arity = arity := hgrown.arity_eq.trans hstart.arity_eq
  have hlimit' : plain.limit = limit := hlimit
  refine ⟨p, hp.storage_eq, harity, hlimit' ▸ hp.isRoomy, ?_, ?_, ?_⟩
  · intro step hafter
    obtain ⟨hsame, q, hq, hgrown⟩ := ListStep.run_becomes hp step hcount hafter
    rw [hlimit'] at hgrown
    have hroomy : q.IsRoomy limit := (hsame.trans hlimit') ▸ hq.isRoomy
    exact ⟨q, hq.storage_eq, hroomy, hgrown⟩
  · intro hmutable row hrow step hstep
    have hplain : row.length = plain.arity := by rw [hrow, ← hp.arity_eq, harity]
    have hadd := hp.run_add (PlainList.isCountable_of_slots hcount) hmutable hplain hstep
    rwa [hlimit'] at hadd
  · have hbounds := hp.reserve_bounds
    rwa [hlimit', harity] at hbounds

namespace Sales

def fillingSteps : List ListStep := [.push allTuple, .remove 0, .push allTuple, .insert 1 allTuple]

/-- Two rows take up all slots that there may be, and a third one changes nothing. -/
theorem packed_filled : ∃ l, TupleList.packed 2 1 (.ofInt 2) = .ok l ∧
    let full := ListStep.after ListStep.run l fillingSteps
    ∃ p, full.storage = .packed p ∧ p.IsRoomy (.ofInt 2) ∧ p.data.size = 4 ∧
      (ListStep.push allTuple).run full = (full, .error (.error (.limitExceeded 3 2))) := by
  obtain ⟨hmakes, hstays⟩ := TupleList.packed_stays_roomy 2 1 (.ofInt 2)
  obtain ⟨l, hl⟩ := hmakes.mpr (by decide)
  have hslots : ∀ before ∈ fillingSteps.inits, (ListStep.after ListStep.runPlain
      ⟨2, [], true, .ofInt 2⟩ before).slots < 2 ^ 62 := by decide
  obtain ⟨p, hstorage, -, hroomy, -, hadd, -⟩ := hstays l hl fillingSteps fun before hbefore =>
    hslots before ((List.mem_inits before fillingSteps).mpr hbefore)
  refine ⟨l, hl, p, hstorage, hroomy, ?_⟩
  obtain rfl : ⟨.packed ⟨2, #[], 2⟩, true, .ofInt 2⟩ = l := Except.ok.inj hl
  obtain rfl : _ = p := Storage.packed.inj hstorage
  refine ⟨rfl, ?_⟩
  rcases hadd rfl allTuple rfl (.push allTuple) List.mem_cons_self with
    ⟨hallows, -, -⟩ | ⟨most, hmost, -, hrefused⟩
  · exact absurd (hallows 2 rfl) (by decide)
  · obtain rfl : 2 = most := Option.some.inj hmost
    exact hrefused

end Sales

end CubeCalc
