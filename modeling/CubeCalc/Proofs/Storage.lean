import CubeCalc.Proofs.Outcome
import CubeCalc.Tuple.Storage
import Mathlib.Data.List.InsertIdx
import Mathlib.Tactic.Common
/-!
# Storages as lists of rows

Each of the storages stands for a list of rows of its arity. Packed rows do so by their
concatenation, which is cut at multiples of the arity. Every change of a storage is the change of
the list that it stands for, and is refused where there is no room for another row.
-/

namespace CubeCalc

/-! ### Rows of one length -/

section Uniform

variable {α : Type} {k : Nat} {rows : List (List α)}

theorem length_flatten_uniform (hrows : ∀ row ∈ rows, row.length = k) :
    rows.flatten.length = rows.length * k := by
  induction rows with
  | nil => simp
  | cons row rest ih =>
    have hrest := ih fun r hr => hrows r (List.mem_cons_of_mem _ hr)
    have hrow := hrows row List.mem_cons_self
    rw [List.flatten_cons, List.length_append, List.length_cons, hrest, hrow, Nat.succ_mul,
      Nat.add_comm]

theorem take_flatten_uniform (hrows : ∀ row ∈ rows, row.length = k) (i : Nat) :
    rows.flatten.take (i * k) = (rows.take i).flatten := by
  induction rows generalizing i with
  | nil => simp
  | cons row rest ih =>
    cases i with
    | zero => simp
    | succ i =>
      have hrest := ih (fun r hr => hrows r (List.mem_cons_of_mem _ hr)) i
      have hrow := hrows row List.mem_cons_self
      have hsucc : (i + 1) * k = row.length + i * k := by rw [hrow, Nat.succ_mul, Nat.add_comm]
      simp only [List.flatten_cons, List.take_succ_cons, hsucc, List.take_length_add_append, hrest]

theorem drop_flatten_uniform (hrows : ∀ row ∈ rows, row.length = k) (i : Nat) :
    rows.flatten.drop (i * k) = (rows.drop i).flatten := by
  induction rows generalizing i with
  | nil => simp
  | cons row rest ih =>
    cases i with
    | zero => simp
    | succ i =>
      have hrest := ih (fun r hr => hrows r (List.mem_cons_of_mem _ hr)) i
      have hrow := hrows row List.mem_cons_self
      have hsucc : (i + 1) * k = row.length + i * k := by rw [hrow, Nat.succ_mul, Nat.add_comm]
      simp only [List.flatten_cons, List.drop_succ_cons, hsucc, List.drop_length_add_append, hrest]

theorem insertIdx_eq_take_append {i : Nat} {row : List α} (hi : i ≤ rows.length) :
    rows.insertIdx i row = rows.take i ++ row :: rows.drop i := by
  induction rows generalizing i with
  | nil => simp [Nat.le_zero.mp hi]
  | cons first rest ih =>
    cases i with
    | zero => simp
    | succ i => simp [ih (Nat.le_of_succ_le_succ hi)]

end Uniform

/-! ### Packed rows -/

namespace Packed

/-- The slots hold some rows one behind the other. -/
structure Stores (p : Packed) (rows : List Tuple) : Prop where
  arity_pos : 0 < p.arity
  data_eq : p.data.toList = rows.flatten
  uniform : ∀ row ∈ rows, row.length = p.arity

variable {p : Packed} {rows : List Tuple} {row : Tuple} {limit : RowLimit}

/-- The slots that are reserved once there is room for as many as are needed. -/
def reservedCapacity (p : Packed) (limit : RowLimit) (needed : Nat) : Nat :=
  if needed ≤ p.capacity then p.capacity else p.grownCapacity (limit.ceiling? p.arity) needed

/-- To reserve slots is to ask the limit, if it can be counted in slots, and to reserve them. -/
theorem reserve_eq_check (p : Packed) (limit : RowLimit) (needed : Nat) :
    p.reserve limit needed =
      ((if (limit.ceiling? p.arity).any (· < needed) then
          limit.check ((needed + p.arity - 1) / p.arity) else .ok ()) >>=
        fun _ => .ok { p with capacity := p.reservedCapacity limit needed }) := by
  have hgrown : (if needed ≤ p.capacity then pure p else
      pure { p with capacity := p.grownCapacity (limit.ceiling? p.arity) needed } :
      Outcome Packed) = .ok { p with capacity := p.reservedCapacity limit needed } := by
    unfold reservedCapacity
    split <;> rfl
  rw [Packed.reserve]
  simp only [hgrown]
  split <;> rfl

namespace Stores

theorem size_data (hp : p.Stores rows) : p.data.size = rows.length * p.arity := by
  rw [← Array.length_toList, hp.data_eq, length_flatten_uniform hp.uniform]

theorem size_eq (hp : p.Stores rows) : p.size = rows.length := by
  rw [Packed.size, hp.size_data, Nat.mul_div_cancel _ hp.arity_pos]

theorem extract_eq (hp : p.Stores rows) (i : Nat) :
    (p.data.extract 0 (i * p.arity)).toList = (rows.take i).flatten := by
  rw [Array.toList_extract, List.extract_eq_take_drop, hp.data_eq, List.drop_zero, Nat.sub_zero,
    take_flatten_uniform hp.uniform]

theorem extract_rest_eq (hp : p.Stores rows) (i : Nat) :
    (p.data.extract (i * p.arity) p.data.size).toList = (rows.drop i).flatten := by
  rw [Array.toList_extract, List.extract_eq_take_drop, hp.data_eq,
    drop_flatten_uniform hp.uniform, List.take_of_length_le]
  refine Nat.le_of_eq ?_
  rw [length_flatten_uniform fun r hr => hp.uniform r (List.mem_of_mem_drop hr), hp.size_data,
    List.length_drop, Nat.sub_mul]

theorem row_eq (hp : p.Stores rows) {i : Nat} (hi : i < rows.length) : p.row i = rows[i] := by
  have hdrop : rows.drop i = rows[i] :: rows.drop (i + 1) := List.drop_eq_getElem_cons hi
  have hlength : rows[i].length = p.arity := hp.uniform _ (List.getElem_mem hi)
  rw [Packed.row, Array.toList_extract, List.extract_eq_take_drop, hp.data_eq,
    drop_flatten_uniform hp.uniform, hdrop, List.flatten_cons, Nat.add_sub_cancel_left, ← hlength,
    List.take_left]

theorem slot_lt (hp : p.Stores rows) {i column : Nat} (hi : i < rows.length)
    (hcolumn : column < rows[i].length) : i * p.arity + column < rows.length * p.arity := by
  have hlength : rows[i].length = p.arity := hp.uniform _ (List.getElem_mem hi)
  have hnext : (i + 1) * p.arity ≤ rows.length * p.arity := Nat.mul_le_mul_right _ hi
  rw [Nat.succ_mul] at hnext
  omega

/-- The slot of a member is found by its row and its column. -/
theorem getElem?_data (hp : p.Stores rows) {i column : Nat} (hi : i < rows.length)
    (hcolumn : column < rows[i].length) :
    p.data[i * p.arity + column]? = some rows[i][column] := by
  rw [← Array.getElem?_toList, hp.data_eq, ← List.getElem?_drop, drop_flatten_uniform hp.uniform,
    List.drop_eq_getElem_cons hi, List.flatten_cons, List.getElem?_append_left hcolumn,
    List.getElem?_eq_getElem hcolumn]

/-- A member is read from its slot, as long as a word can count the slots. -/
theorem member_eq (hp : p.Stores rows) {i column : Nat} (hi : i < rows.length)
    (hcolumn : column < rows[i].length) (hcount : rows.length * p.arity < wordBound) :
    p.member column i = .ok rows[i][column] := by
  have hlength : rows[i].length = p.arity := hp.uniform _ (List.getElem_mem hi)
  have hslot : i * p.arity + column < wordBound := Nat.lt_trans (hp.slot_lt hi hcolumn) hcount
  rw [Packed.member, if_pos (hlength ▸ hcolumn)]
  dsimp only
  rw [if_pos hslot, hp.getElem?_data hi hcolumn]

theorem rows_eq (hp : p.Stores rows) : p.rows = rows := by
  rw [Packed.rows, hp.size_eq]
  apply List.ext_getElem
  · simp
  · intro i hi _
    have hi' : i < rows.length := by simpa using hi
    rw [List.getElem_map, List.getElem_range, hp.row_eq hi']

end Stores

/-! ### Changing packed rows -/

namespace Stores

theorem push (hp : p.Stores rows) (hrow : row.length = p.arity) (capacity : Nat) :
    Stores ⟨p.arity, p.data ++ row, capacity⟩ (rows ++ [row]) where
  arity_pos := hp.arity_pos
  data_eq := by simp [hp.data_eq]
  uniform r hr := by
    rcases List.mem_append.mp hr with hold | hnew
    · exact hp.uniform r hold
    · rw [List.mem_singleton.mp hnew, hrow]

theorem insert (hp : p.Stores rows) (hrow : row.length = p.arity) {i : Nat} (hi : i ≤ rows.length)
    (capacity : Nat) :
    Stores ⟨p.arity, p.data.extract 0 (i * p.arity) ++ row ++
      p.data.extract (i * p.arity) p.data.size, capacity⟩ (rows.insertIdx i row) where
  arity_pos := hp.arity_pos
  data_eq := by
    rw [Array.toList_append, Array.toList_appendList, hp.extract_eq, hp.extract_rest_eq,
      insertIdx_eq_take_append hi]
    simp
  uniform r hr := by
    rcases (List.mem_insertIdx hi).mp hr with rfl | hold
    · exact hrow
    · exact hp.uniform r hold

theorem set (hp : p.Stores rows) (hrow : row.length = p.arity) {i : Nat} (hi : i < rows.length) :
    (p.set i row).Stores (rows.set i row) where
  arity_pos := hp.arity_pos
  data_eq := by
    have hnext : i * p.arity + p.arity = (i + 1) * p.arity := (Nat.succ_mul i _).symm
    rw [Packed.set, hnext, Array.toList_append, Array.toList_appendList, hp.extract_eq,
      hp.extract_rest_eq, List.set_eq_take_append_cons_drop, if_pos hi]
    simp
  uniform r hr := by
    rcases List.mem_or_eq_of_mem_set hr with hold | rfl
    · exact hp.uniform r hold
    · exact hrow

theorem remove (hp : p.Stores rows) (i : Nat) : (p.remove i).Stores (rows.eraseIdx i) where
  arity_pos := hp.arity_pos
  data_eq := by
    have hnext : i * p.arity + p.arity = (i + 1) * p.arity := (Nat.succ_mul i _).symm
    rw [Packed.remove, hnext, Array.toList_append, hp.extract_eq, hp.extract_rest_eq,
      List.eraseIdx_eq_take_drop_succ, List.flatten_append]
  uniform r hr := hp.uniform r (List.mem_of_mem_eraseIdx hr)

theorem refill (hp : p.Stores rows) {kept : List Tuple}
    (hkept : ∀ row ∈ kept, row.length = p.arity) : (p.refill kept).Stores kept :=
  ⟨hp.arity_pos, by rw [Packed.refill, List.toList_toArray], hkept⟩

/-- Room is made for another row, if the limit allows it, and nothing else happens. -/
theorem reserve_eq (hp : p.Stores rows) (limit : RowLimit) :
    p.reserve limit (p.data.size + p.arity) =
      ((if (limit.ceiling? p.arity).isSome then limit.check (rows.length + 1) else .ok ()) >>=
        fun _ => .ok { p with
          capacity := p.reservedCapacity limit (p.data.size + p.arity) }) := by
  have hneeded : p.data.size + p.arity = (rows.length + 1) * p.arity := by
    rw [hp.size_data, Nat.succ_mul]
  have hwhole : ((rows.length + 1) * p.arity + p.arity - 1) / p.arity = rows.length + 1 := by
    have hpos := hp.arity_pos
    rw [Nat.add_sub_assoc hpos, Nat.add_comm, Nat.add_mul_div_right _ _ hpos,
      Nat.div_eq_of_lt (by omega), Nat.zero_add]
  rw [reserve_eq_check, hneeded, hwhole]
  congr 1
  cases hrows : limit.rows? with
  | none => simp [RowLimit.ceiling?, hrows]
  | some most =>
    by_cases hbound : most * p.arity < wordBound
    · have hlt : most * p.arity < (rows.length + 1) * p.arity ↔ most < rows.length + 1 :=
        Nat.mul_lt_mul_right hp.arity_pos
      by_cases hmost : most < rows.length + 1 <;>
        simp [RowLimit.ceiling?, RowLimit.check, hrows, hbound, hlt, hmost]
    · simp [RowLimit.ceiling?, hrows, hbound]

end Stores

end Packed

/-! ### All storages -/

namespace Storage

/-- The rows that a storage stands for, all of its arity. -/
inductive Stores : Storage → List Tuple → Prop where
  | unary {members : Array Member} {rows : List Tuple}
    (hmembers : members.toList.map (fun m => [m]) = rows) : Stores (.unary members) rows
  | packed {p : Packed} {rows : List Tuple} (hp : p.Stores rows) : Stores (.packed p) rows
  | delegating {arity : Nat} {stored : Array Tuple} {rows : List Tuple}
    (hstored : stored.toList = rows) (hrows : ∀ row ∈ rows, row.length = arity) :
    Stores (.delegating arity stored) rows

/-- Whether there is room for another row. Packed rows are not counted where the slots that the
limit allows are too many for a word. -/
def room (s : Storage) (limit : RowLimit) : Outcome Unit :=
  match s with
  | .packed p => if (limit.ceiling? p.arity).isSome then limit.check (p.size + 1) else .ok ()
  | s => limit.check (s.length + 1)

variable {s : Storage} {rows : List Tuple} {row : Tuple} {i : Nat}

namespace Stores

theorem rows_eq (hs : s.Stores rows) : s.rows = rows := by
  cases hs with
  | unary hmembers => exact hmembers
  | packed hp => exact hp.rows_eq
  | delegating hstored hrows => exact hstored

theorem length_eq (hs : s.Stores rows) : s.length = rows.length := by
  cases hs with
  | unary hmembers => simp [Storage.length, ← hmembers]
  | packed hp => exact hp.size_eq
  | delegating hstored hrows => simp [Storage.length, ← hstored]

theorem uniform (hs : s.Stores rows) : ∀ row ∈ rows, row.length = s.arity := by
  cases hs with
  | unary hmembers =>
    intro row hrow
    obtain ⟨m, -, rfl⟩ := List.mem_map.mp (hmembers ▸ hrow)
    rfl
  | packed hp => exact hp.uniform
  | delegating hstored hrows => exact hrows

theorem row_eq (hs : s.Stores rows) (hi : i < rows.length) : s.row i = rows[i] := by
  cases hs with
  | unary hmembers =>
    subst hmembers
    have hi' := hi
    rw [List.length_map, Array.length_toList] at hi'
    simp [Storage.row, hi']
  | packed hp => exact hp.row_eq hi
  | delegating hstored hrows =>
    subst hstored
    have hi' := hi
    rw [Array.length_toList] at hi'
    simp [Storage.row, hi']

/-- A member is read from its row, if the slots can be counted in a word. -/
theorem member_eq (hs : s.Stores rows) (hi : i < rows.length) {column : Nat}
    (hcolumn : column < rows[i].length) (hcount : rows.length * s.arity < wordBound) :
    s.member column i = .ok rows[i][column] := by
  have harity := hs.uniform _ (List.getElem_mem hi)
  cases hs with
  | @unary members _ hmembers =>
    subst hmembers
    have hi' : i < members.size := by simpa using hi
    obtain rfl : column = 0 := by
      rw [harity] at hcolumn
      exact Nat.lt_one_iff.mp hcolumn
    simp [Storage.member, hi']
  | packed hp => exact hp.member_eq hi hcolumn hcount
  | delegating hstored hrows =>
    subst hstored
    have hi' := hi
    rw [Array.length_toList] at hi'
    simp only [Storage.arity] at harity
    simp only [Array.getElem_toList] at hcolumn harity ⊢
    simp [Storage.member, hi', hcolumn, ← harity]

/-! ### Changes -/

/-- A storage refuses a row for want of room, or stands for one row more. -/
theorem push_eq (hs : s.Stores rows) (hrow : row.length = s.arity) (limit : RowLimit) :
    ∃ s' : Storage, s'.Stores (rows ++ [row]) ∧ s'.arity = s.arity ∧
      s.push limit row = (s.room limit >>= fun _ => .ok s') := by
  cases hs with
  | @unary members _ hmembers =>
    obtain ⟨m, rfl⟩ := List.length_eq_one_iff.mp hrow
    exact ⟨.unary (members.push m), .unary (by simp [← hmembers]), rfl, rfl⟩
  | @packed p _ hp =>
    refine ⟨_, .packed (hp.push hrow (p.reservedCapacity limit (p.data.size + p.arity))), rfl, ?_⟩
    simp only [Storage.push, Packed.push, hp.reserve_eq, room, hp.size_eq, bind_assoc,
      Outcome.ok_bind]
    rfl
  | @delegating arity stored _ hstored hrows =>
    refine ⟨.delegating arity (stored.push row), .delegating (by simp [hstored]) ?_, rfl, rfl⟩
    intro r hr
    rcases List.mem_append.mp hr with hold | hnew
    · exact hrows r hold
    · rw [List.mem_singleton.mp hnew]
      exact hrow

theorem insert_eq (hs : s.Stores rows) (hrow : row.length = s.arity) (hi : i ≤ rows.length)
    (limit : RowLimit) :
    ∃ s' : Storage, s'.Stores (rows.insertIdx i row) ∧ s'.arity = s.arity ∧
      s.insert limit i row = (s.room limit >>= fun _ => .ok s') := by
  cases hs with
  | @unary members _ hmembers =>
    obtain ⟨m, rfl⟩ := List.length_eq_one_iff.mp hrow
    refine ⟨.unary (members.toList.insertIdx i m).toArray, .unary ?_, rfl, rfl⟩
    rw [List.toList_toArray, List.map_insertIdx, hmembers]
  | @packed p _ hp =>
    refine ⟨_, .packed (hp.insert hrow hi (p.reservedCapacity limit (p.data.size + p.arity))), rfl,
      ?_⟩
    simp only [Storage.insert, Packed.insert, hp.reserve_eq, room, hp.size_eq, bind_assoc,
      Outcome.ok_bind]
    rfl
  | @delegating arity stored _ hstored hrows =>
    refine ⟨.delegating arity (stored.toList.insertIdx i row).toArray, .delegating ?_ ?_, rfl, rfl⟩
    · rw [List.toList_toArray, hstored]
    · intro r hr
      rcases (List.mem_insertIdx hi).mp hr with rfl | hold
      · exact hrow
      · exact hrows r hold

theorem set_eq (hs : s.Stores rows) (hrow : row.length = s.arity) (hi : i < rows.length) :
    ∃ s' : Storage, s'.Stores (rows.set i row) ∧ s'.arity = s.arity ∧ s.set i row = .ok s' := by
  cases hs with
  | @unary members _ hmembers =>
    obtain ⟨m, rfl⟩ := List.length_eq_one_iff.mp hrow
    refine ⟨.unary (members.setIfInBounds i m), .unary ?_, rfl, rfl⟩
    rw [Array.toList_setIfInBounds, List.map_set, hmembers]
  | packed hp => exact ⟨_, .packed (hp.set hrow hi), rfl, rfl⟩
  | @delegating arity stored _ hstored hrows =>
    refine ⟨.delegating arity (stored.setIfInBounds i row), .delegating ?_ ?_, rfl, rfl⟩
    · rw [Array.toList_setIfInBounds, hstored]
    · intro r hr
      rcases List.mem_or_eq_of_mem_set hr with hold | rfl
      · exact hrows r hold
      · exact hrow

theorem remove (hs : s.Stores rows) (i : Nat) :
    (s.remove i).Stores (rows.eraseIdx i) ∧ (s.remove i).arity = s.arity := by
  cases hs with
  | unary hmembers =>
    refine ⟨.unary ?_, rfl⟩
    rw [Array.toList_eraseIdxIfInBounds, ← List.eraseIdx_map, hmembers]
  | packed hp => exact ⟨.packed (hp.remove i), rfl⟩
  | delegating hstored hrows =>
    refine ⟨.delegating ?_ fun r hr => hrows r (List.mem_of_mem_eraseIdx hr), rfl⟩
    rw [Array.toList_eraseIdxIfInBounds, hstored]

theorem refill (hs : s.Stores rows) {kept : List Tuple}
    (hkept : ∀ row ∈ kept, row.length = s.arity) :
    (s.refill kept).Stores kept ∧ (s.refill kept).arity = s.arity := by
  cases hs with
  | unary hmembers =>
    refine ⟨.unary ?_, rfl⟩
    rw [List.toList_toArray]
    clear hmembers
    induction kept with
    | nil => rfl
    | cons row rest ih =>
      obtain ⟨m, rfl⟩ := List.length_eq_one_iff.mp (hkept row List.mem_cons_self)
      simpa using ih fun r hr => hkept r (List.mem_cons_of_mem _ hr)
  | packed hp => exact ⟨.packed (hp.refill hkept), rfl⟩
  | delegating hstored hrows => exact ⟨.delegating List.toList_toArray hkept, rfl⟩

/-- Room is what the limit leaves, as long as the members that it allows for can be counted. -/
theorem room_eq (hs : s.Stores rows) {limit : RowLimit}
    (hcount : limit.clamp rows.length * s.arity < wordBound) :
    s.room limit = limit.check (rows.length + 1) := by
  cases hs with
  | unary hmembers => simp [room, Storage.length, ← hmembers]
  | delegating hstored hrows => simp [room, Storage.length, ← hstored]
  | @packed p _ hp =>
    rw [room, hp.size_eq]
    cases hmost : limit.rows? with
    | none => simp [RowLimit.ceiling?, RowLimit.check, hmost]
    | some most =>
      by_cases hbound : most * p.arity < wordBound
      · simp [RowLimit.ceiling?, hmost, hbound]
      · -- A limit on more slots than can be counted is not reached.
        have hlt : rows.length < most := by
          by_contra hle
          simp only [RowLimit.clamp, hmost, Nat.min_eq_right (Nat.le_of_not_lt hle)] at hcount
          exact hbound hcount
        simp [RowLimit.ceiling?, RowLimit.check, hmost, hbound, Nat.not_lt.mpr hlt]

theorem room_cases (hs : s.Stores rows) (limit : RowLimit) :
    s.room limit = .ok () ∨ s.room limit = limit.check (rows.length + 1) := by
  rw [← hs.length_eq]
  cases hs with
  | unary hmembers | delegating hstored hrows => exact .inr rfl
  | packed hp =>
    rw [room]
    split
    · exact .inr rfl
    · exact .inl rfl

end Stores

theorem arity_refill (s : Storage) (kept : List Tuple) : (s.refill kept).arity = s.arity := by
  cases s <;> rfl

/-- Where rows have their storage's arity, what they are replaced by is read back. -/
theorem rows_refill {s : Storage} {kept : List Tuple} (hperm : kept.Perm s.rows)
    (huniform : ∀ row ∈ s.rows, row.length = s.arity) : (s.refill kept).rows = kept := by
  have hkept : ∀ row ∈ kept, row.length = s.arity :=
    fun row hrow => huniform row (hperm.subset hrow)
  cases s with
  | unary members => exact (Stores.refill (.unary rfl) hkept).1.rows_eq
  | delegating arity rows => exact (Stores.refill (.delegating rfl huniform) hkept).1.rows_eq
  | packed p =>
    obtain harity | harity := Nat.eq_zero_or_pos p.arity
    · have hnone : ∀ q : Packed, q.arity = 0 → q.rows = [] := by
        intro q hq
        rw [Packed.rows, Packed.size, hq, Nat.div_zero]
        rfl
      obtain rfl : kept = [] := List.perm_nil.mp (hnone p harity ▸ hperm)
      exact hnone _ harity
    · exact Packed.Stores.rows_eq ⟨harity, by rw [Packed.refill, List.toList_toArray], hkept⟩

end Storage

end CubeCalc
