import CubeCalc.Proofs.Forest
import Mathlib.Data.List.Infix
import Mathlib.Data.List.Pairwise
/-!
# The identity of members

The unique name of a member joins the names along its path, and the names stand there as they are.
What is left of the path are the pieces between the separators, so that members are the same just if
their paths fall into the same pieces. Names without a separator are their own pieces. Then members
differ in a hierarchy unless a child of the all member, which has no place in the path of its
children, goes by the name of the all member.
-/

namespace CubeCalc

/-! ### Pieces -/

namespace UniqueName

/-- What stands between two names. -/
def separator : List Char := [']', '.', '[']

/-- The pieces of a text between the separators. -/
def pieces : List Char → List (List Char)
  | [] => [[]]
  | ']' :: '.' :: '[' :: rest => [] :: pieces rest
  | c :: rest => (pieces rest).modifyHead (c :: ·)

variable {x : List Char} {xs ys : List (List Char)}

theorem pieces_ne_nil (x : List Char) : pieces x ≠ [] := by
  fun_induction pieces x with
  | case1 => exact List.cons_ne_nil _ _
  | case2 rest ih => exact List.cons_ne_nil _ _
  | case3 c rest hc ih => simpa [List.modifyHead_eq_nil_iff] using ih

theorem pieces_cons {c : Char} {rest : List Char} (hc : ¬ separator <+: c :: rest) :
    pieces (c :: rest) = (pieces rest).modifyHead (c :: ·) := by
  rw [pieces]
  rintro tail rfl rfl
  exact hc ⟨tail, rfl⟩

/-- A separator starts no other separator, so that it is found wherever it stands. -/
theorem pieces_append (x y : List Char) :
    pieces (x ++ separator ++ y) = pieces x ++ pieces y := by
  fun_induction pieces x with
  | case1 => rfl
  | case2 rest ih =>
    change [] :: pieces (rest ++ separator ++ y) = _
    rw [ih, List.cons_append]
  | case3 c rest hc ih =>
    have hskip : ¬ separator <+: c :: (rest ++ separator ++ y) := by
      rintro ⟨tail, htail⟩
      obtain ⟨hhead, hrest⟩ := List.cons.inj htail
      match rest with
      | [] => exact absurd (List.cons.inj hrest).1 (by decide)
      | [_] => exact absurd (List.cons.inj (List.cons.inj hrest).2).1 (by decide)
      | _ :: _ :: more =>
        obtain ⟨rfl, hmore⟩ := List.cons.inj hrest
        obtain ⟨rfl, -⟩ := List.cons.inj hmore
        exact hc more hhead.symm rfl
    obtain ⟨first, others, hrest⟩ := List.exists_cons_of_ne_nil (pieces_ne_nil rest)
    rw [List.cons_append, List.cons_append, pieces_cons hskip, ih, hrest]
    rfl

theorem intercalate_pieces (x : List Char) : separator.intercalate (pieces x) = x := by
  fun_induction pieces x with
  | case1 => rfl
  | case2 rest ih =>
    rw [List.intercalate_cons_of_ne_nil (pieces_ne_nil rest), ih]
    rfl
  | case3 c rest hc ih =>
    obtain ⟨first, others, hrest⟩ := List.exists_cons_of_ne_nil (pieces_ne_nil rest)
    rw [hrest] at ih ⊢
    rw [List.modifyHead_cons, List.intercalate_cons_cons_left, ih]

theorem pieces_intercalate (hxs : xs ≠ []) :
    pieces (separator.intercalate xs) = xs.flatMap pieces := by
  induction xs with
  | nil => exact absurd rfl hxs
  | cons x rest ih =>
    by_cases hrest : rest = []
    · rw [hrest, List.intercalate_singleton, List.flatMap_singleton]
    · rw [List.intercalate_cons_of_ne_nil hrest, pieces_append, ih hrest, List.flatMap_cons]

/-- Joined names are the same if their pieces are. -/
theorem intercalate_eq_iff (hxs : xs ≠ []) (hys : ys ≠ []) :
    separator.intercalate xs = separator.intercalate ys ↔
      xs.flatMap pieces = ys.flatMap pieces := by
  rw [← pieces_intercalate hxs, ← pieces_intercalate hys]
  constructor
  · exact congrArg pieces
  · intro hpieces
    rw [← intercalate_pieces (separator.intercalate xs), hpieces, intercalate_pieces]

theorem intercalate_concat (hxs : xs ≠ []) (y : List Char) :
    separator.intercalate (xs ++ [y]) = separator.intercalate xs ++ separator ++ y := by
  induction xs with
  | nil => exact absurd rfl hxs
  | cons x rest ih =>
    rw [List.cons_append, List.intercalate_cons_of_ne_nil (List.concat_ne_nil y rest)]
    by_cases hrest : rest = []
    · rw [hrest, List.nil_append, List.intercalate_singleton, List.intercalate_singleton]
    · rw [ih hrest, List.intercalate_cons_of_ne_nil hrest]
      simp only [List.append_assoc]

theorem pieces_of_not_infix (hx : ¬ separator <:+: x) : pieces x = [x] := by
  induction x with
  | nil => rfl
  | cons c rest ih =>
    rw [List.infix_cons_iff, not_or] at hx
    rw [pieces_cons hx.1, ih hx.2, List.modifyHead_cons]

end UniqueName

/-! ### Paths -/

namespace Member

/-- The names from the hierarchy down to a member, as its unique name shows them. -/
def path : Member → List String
  | .root label => [label.hierarchy, label.name]
  | .child parent label =>
    if parent.isAll then [label.hierarchy, label.name] else parent.path ++ [label.name]

/-- The pieces that its path falls into. -/
def pieces (m : Member) : List (List Char) :=
  m.path.flatMap fun name => UniqueName.pieces name.toList

theorem two_le_length_path (m : Member) : 2 ≤ m.path.length := by
  induction m with
  | root label => exact Nat.le_refl 2
  | child parent label ih =>
    rw [path]
    split
    · exact Nat.le_refl 2
    · rw [List.length_append]
      exact Nat.le_add_right_of_le ih

theorem path_ne_nil (m : Member) : m.path ≠ [] :=
  List.ne_nil_of_length_pos (Nat.lt_of_lt_of_le Nat.zero_lt_two m.two_le_length_path)

theorem concat_path_ne_pair (m : Member) (name a b : String) : m.path ++ [name] ≠ [a, b] := by
  intro hsame
  have hlength := congrArg List.length hsame
  have htwo := m.two_le_length_path
  rw [List.length_append] at hlength
  simp only [List.length_cons, List.length_nil] at hlength
  omega

theorem toList_uniqueName (m : Member) : m.uniqueName.toList =
    '[' :: (UniqueName.separator.intercalate (m.path.map String.toList) ++ [']']) := by
  induction m with
  | root label => simp [uniqueName, path, bracketed, UniqueName.separator]
  | child parent label ih =>
    rw [uniqueName, path]
    split
    · simp [bracketed, UniqueName.separator]
    · have hparent : parent.path.map String.toList ≠ [] := by simp [parent.path_ne_nil]
      rw [List.map_append, List.map_singleton, UniqueName.intercalate_concat hparent]
      simp [bracketed, UniqueName.separator, ih]

/-- Members are the same if their paths fall into the same pieces. -/
theorem beq_iff_pieces (m n : Member) : (m == n) = true ↔ m.pieces = n.pieces := by
  have hpieces : ∀ own : Member,
      own.pieces = (own.path.map String.toList).flatMap UniqueName.pieces := by
    intro own
    rw [pieces, List.flatMap_map]
  rw [beq_iff, ← String.toList_inj, toList_uniqueName, toList_uniqueName, List.cons_inj_right,
    List.append_left_inj, UniqueName.intercalate_eq_iff (by simp [m.path_ne_nil])
      (by simp [n.path_ne_nil]), hpieces, hpieces]

end Member

/-- A unique name is answered by a member that is the same. -/
theorem Hierarchy.exists_lookup?_uniqueName {h : Hierarchy} {m : Member} (hm : m ∈ h.members) :
    ∃ n ∈ h.members, h.lookup? m.uniqueName = some n ∧ (n == m) = true := by
  have hsome : (h.members.find? fun n => n.uniqueName == m.uniqueName).isSome = true :=
    List.find?_isSome.mpr ⟨m, hm, m.beq_refl⟩
  obtain ⟨n, hn⟩ := Option.isSome_iff_exists.mp hsome
  have hsame := List.find?_some hn
  refine ⟨n, List.mem_of_find?_eq_some hn, ?_, hsame⟩
  rw [lookup?, hn]
  rfl

/-! ### Plain names -/

namespace HierarchyBuilder

/-- Members below one parent have names of their own. -/
def NamesSiblings (b : HierarchyBuilder) : Prop :=
  b.members.Pairwise fun m n => m.parent? = n.parent? → m.name ≠ n.name

/-- Names are their own pieces. -/
def NamesPlainly (b : HierarchyBuilder) : Prop :=
  ∀ m ∈ b.members, ¬ UniqueName.separator <:+: m.name.toList

/-- The all member shares its name with none of its children. -/
def NamesBelowAll (b : HierarchyBuilder) : Prop :=
  ∀ m ∈ b.members, ∀ a, m.parent? = some a → a.isAll = true → m.name ≠ a.name

variable {b : HierarchyBuilder} {m n : Member}

theorem NamesSiblings.eq_of_name_eq (hb : b.NamesSiblings) (hm : m ∈ b.members)
    (hn : n ∈ b.members) (hparent : m.parent? = n.parent?) (hname : m.name = n.name) : m = n := by
  by_contra hne
  have hsymm : Std.Symm fun m n : Member => m.parent? = n.parent? → m.name ≠ n.name :=
    ⟨fun _ _ hapart heq => (hapart heq.symm).symm⟩
  exact List.Pairwise.forall hb hm hn hne hparent hname

theorem namesSiblings_of_nodup (hnames : (b.members.map Member.name).Nodup) : b.NamesSiblings := by
  have hapart : b.members.Pairwise fun m n => m.name ≠ n.name := List.pairwise_map.mp hnames
  exact hapart.imp fun {m n} hname (_ : m.parent? = n.parent?) => hname

/-- An all member is on the line of every member, so that nothing else is on top. -/
theorem Grown.path_root_ne (hb : b.Grown) (hall : b.NamesBelowAll)
    {label own : MemberLabel} {parent : Member} (hroot : .root label ∈ b.members)
    (hchild : .child parent own ∈ b.members) :
    (Member.root label).path ≠ (Member.child parent own).path := by
  intro hpath
  rw [Member.path, Member.path] at hpath
  split at hpath
  · next hisAll =>
    have hparent := hb.own.keeps.parent_mem _ hchild parent rfl
    have habove := (hb.own.linked.all_above parent hparent hisAll).2 _ hroot
    obtain rfl := List.mem_singleton.mp habove
    have hname : label.name = own.name := by simpa using (List.cons.inj hpath).2
    exact hall _ hchild _ rfl hisAll hname.symm
  · exact parent.concat_path_ne_pair _ _ _ hpath.symm

/-- A path leads to one member. -/
theorem Grown.eq_of_path_eq (hb : b.Grown) (hsiblings : b.NamesSiblings)
    (hall : b.NamesBelowAll) (hm : m ∈ b.members) (hn : n ∈ b.members)
    (hpath : m.path = n.path) : m = n := by
  have hparent := hb.own.keeps.parent_mem
  induction m generalizing n with
  | root label =>
    cases n with
    | root label' =>
      have hname : label.name = label'.name := by simpa using (List.cons.inj hpath).2
      exact hsiblings.eq_of_name_eq hm hn rfl hname
    | child parent' label' => exact absurd hpath (hb.path_root_ne hall hm hn)
  | child parent label ih =>
    cases n with
    | root label' => exact absurd hpath.symm (hb.path_root_ne hall hn hm)
    | child parent' label' =>
      have hmem := hparent _ hm parent rfl
      have hmem' := hparent _ hn parent' rfl
      suffices hboth : parent = parent' ∧ label.name = label'.name from
        hsiblings.eq_of_name_eq hm hn (congrArg some hboth.1) hboth.2
      rw [Member.path, Member.path] at hpath
      -- Right below the all member a path has two names, and elsewhere it has more.
      by_cases hisAll : parent.isAll = true <;> by_cases hisAll' : parent'.isAll = true
      · rw [if_pos hisAll, if_pos hisAll'] at hpath
        have hown := (hb.own.linked.all_above parent hmem hisAll).1
        have hown' := (hb.own.linked.all_above parent' hmem' hisAll').1
        exact ⟨Option.some.inj (hown.symm.trans hown'), by simpa using (List.cons.inj hpath).2⟩
      · rw [if_pos hisAll, if_neg hisAll'] at hpath
        exact absurd hpath.symm (parent'.concat_path_ne_pair _ _ _)
      · rw [if_neg hisAll, if_pos hisAll'] at hpath
        exact absurd hpath (parent.concat_path_ne_pair _ _ _)
      · rw [if_neg hisAll, if_neg hisAll'] at hpath
        obtain ⟨hup, hname⟩ := List.append_inj' hpath rfl
        exact ⟨ih hmem hmem' hup, by simpa using hname⟩

/-- All paths start at the hierarchy and go on by names of members. -/
theorem Grown.exists_path_eq (hb : b.Grown) (hm : m ∈ b.members) :
    ∃ names, m.path = b.name :: names ∧ ∀ name ∈ names, ∃ n ∈ b.members, n.name = name := by
  have hhierarchy : m.hierarchy = b.name := hb.own.keeps.hierarchy_eq m hm
  induction m with
  | root label =>
    rw [Member.path, ← hhierarchy]
    exact ⟨[label.name], rfl, by simpa using ⟨_, hm, rfl⟩⟩
  | child parent label ih =>
    rw [Member.path]
    split
    · rw [← hhierarchy]
      exact ⟨[label.name], rfl, by simpa using ⟨_, hm, rfl⟩⟩
    · have hparent := hb.own.keeps.parent_mem _ hm parent rfl
      obtain ⟨names, hpath, hnames⟩ := ih hparent (hb.own.keeps.hierarchy_eq _ hparent)
      refine ⟨names ++ [label.name], by rw [hpath, List.cons_append], ?_⟩
      rw [List.forall_mem_append]
      exact ⟨hnames, by simpa using ⟨_, hm, rfl⟩⟩

theorem NamesPlainly.path_eq_of_pieces_eq (hplain : b.NamesPlainly) (hb : b.Grown)
    (hm : m ∈ b.members) (hn : n ∈ b.members) (hpieces : m.pieces = n.pieces) :
    m.path = n.path := by
  have hown : ∀ {names : List String}, (∀ name ∈ names, ∃ n ∈ b.members, n.name = name) →
      (names.flatMap fun name => UniqueName.pieces name.toList) = names.map String.toList := by
    intro names hnames
    rw [List.map_eq_flatMap]
    refine List.flatMap_congr fun name hname => ?_
    obtain ⟨own, hown, rfl⟩ := hnames name hname
    exact UniqueName.pieces_of_not_infix (hplain own hown)
  obtain ⟨names, hpath, hnames⟩ := hb.exists_path_eq hm
  obtain ⟨names', hpath', hnames'⟩ := hb.exists_path_eq hn
  rw [Member.pieces, Member.pieces, hpath, hpath', List.flatMap_cons, List.flatMap_cons,
    List.append_cancel_left_eq, hown hnames, hown hnames'] at hpieces
  have hsame := List.map_injective_iff.mpr (fun _ _ heq => String.toList_injective heq) hpieces
  rw [hpath, hpath', hsame]

/-- A child of the all member is the all member if it has its name. -/
theorem Grown.beq_of_name_eq (hb : b.Grown) (hm : m ∈ b.members) {a : Member}
    (hparent : m.parent? = some a) (hall : a.isAll = true) (hname : m.name = a.name) :
    (m == a) = true := by
  have ha := hb.own.keeps.parent_mem m hm a hparent
  have hhierarchy : m.hierarchy = a.hierarchy :=
    (hb.own.keeps.hierarchy_eq m hm).trans (hb.own.keeps.hierarchy_eq a ha).symm
  rw [Member.beq_iff]
  cases m with
  | root label => cases hparent
  | child parent label =>
    obtain rfl : parent = a := Option.some.inj hparent
    rw [Member.uniqueName, if_pos hall]
    cases parent with
    | root own =>
      change label.hierarchy = own.hierarchy at hhierarchy
      change label.name = own.name at hname
      rw [Member.uniqueName, hhierarchy, hname]
    | child top own =>
      -- The all member would be on the line of its own parent.
      have htop := hb.own.keeps.parent_mem _ ha top rfl
      have hline := (hb.own.linked.all_above _ ha hall).2 top htop
      exact absurd (Member.depth_le_of_mem_line hline) (Nat.not_succ_le_self top.depth)

theorem Grown.namesBelowAll_of_pairwise (hb : b.Grown)
    (hapart : b.members.Pairwise fun m n => (m == n) = false) : b.NamesBelowAll := by
  intro m hm a hparent hall hname
  have hsame := hb.beq_of_name_eq hm hparent hall hname
  have hne : m ≠ a := by
    rintro rfl
    have hdepth := Member.depth_of_parent? hparent
    omega
  have hsymm : Std.Symm fun m n : Member => (m == n) = false := by
    refine ⟨fun m n hmn => ?_⟩
    rw [← Bool.not_eq_true, Member.beq_iff] at hmn ⊢
    exact fun heq => hmn heq.symm
  have hdiffer := List.Pairwise.forall hapart hm (hb.own.keeps.parent_mem m hm a hparent) hne
  rw [hsame] at hdiffer
  cases hdiffer

/-- Members of a hierarchy are the same just if their paths fall into the same pieces, and a unique
name is answered by a member that is the same. With plain names no member is the same as another
just if no child of the all member has its name, and then a unique name is answered by the member
that bears it. -/
theorem Grown.identity_of_build (hb : b.Grown) (hsiblings : b.NamesSiblings) {h : Hierarchy}
    (hbuild : b.build = .ok h) :
    (∀ m ∈ h.members, ∀ n ∈ h.members, (m == n) = true ↔ m.pieces = n.pieces) ∧
    (∀ m ∈ h.members, ∃ n ∈ h.members, h.lookup? m.uniqueName = some n ∧ (n == m) = true) ∧
    (b.NamesPlainly →
      ((h.members.Pairwise fun m n => (m == n) = false) ↔ b.NamesBelowAll) ∧
      (b.NamesBelowAll → ∀ m ∈ h.members, h.lookup? m.uniqueName = some m)) := by
  refine ⟨fun m _ n _ => m.beq_iff_pieces n, fun m hm => Hierarchy.exists_lookup?_uniqueName hm,
    fun hplain => ?_⟩
  obtain ⟨hmembers, -⟩ := members_of_build hbuild
  have hsame : b.NamesBelowAll → ∀ m ∈ b.members, ∀ n ∈ b.members, (m == n) = true → m = n := by
    intro hall m hm n hn heq
    exact hb.eq_of_path_eq hsiblings hall hm hn
      (hplain.path_eq_of_pieces_eq hb hm hn ((m.beq_iff_pieces n).mp heq))
  rw [hmembers]
  refine ⟨⟨hb.namesBelowAll_of_pairwise, fun hall => ?_⟩, fun hall m hm => ?_⟩
  · refine hsiblings.imp_of_mem fun {m n} hm hn hapart => ?_
    rw [← Bool.not_eq_true]
    intro heq
    obtain rfl := hsame hall m hm n hn heq
    exact hapart rfl rfl
  · rw [← hmembers] at hm
    obtain ⟨n, hn, hlookup, heq⟩ := Hierarchy.exists_lookup?_uniqueName hm
    rw [hmembers] at hm hn
    rwa [hsame hall n hn m hm heq] at hlookup

end HierarchyBuilder

namespace Sales

open HierarchyBuilder

theorem regionBuilder_unambiguous : regionBuilder.Grown ∧ regionBuilder.NamesSiblings ∧
    regionBuilder.NamesPlainly ∧ regionBuilder.NamesBelowAll ∧ ∃ h, regionBuilder.build = .ok h ∧
      (h.members.Pairwise fun m n => (m == n) = false) ∧
      ∀ m ∈ h.members, h.lookup? m.uniqueName = some m := by
  have hnames : (regionBuilder.members.map Member.name).Nodup := by decide
  have hplain : regionBuilder.NamesPlainly := by
    rw [NamesPlainly]
    decide
  have hall : regionBuilder.NamesBelowAll := by
    intro m hm a hparent _ hname
    have ha := regionBuilder_own.keeps.parent_mem m hm a hparent
    have hdepth := Member.depth_of_parent? hparent
    rw [List.inj_on_of_nodup_map hnames hm ha hname] at hdepth
    omega
  have hsiblings := namesSiblings_of_nodup hnames
  obtain ⟨h, hbuild⟩ := exists_build_of_members_ne_nil
    (by simp [regionBuilder, HierarchyBuilder.addMember] : regionBuilder.members ≠ [])
  obtain ⟨-, -, hunique⟩ :=
    HierarchyBuilder.Grown.identity_of_build regionBuilder_own.grown hsiblings hbuild
  obtain ⟨hapart, hlookup⟩ := hunique hplain
  exact ⟨regionBuilder_own.grown, hsiblings, hplain, hall, h, hbuild, hapart.mpr hall,
    hlookup hall⟩

def country : Member := (withoutAll "Town").nextMember none "Norway"

/-- The path of a town below a country is the name of a member beside the country as well. -/
def pathBuilder : HierarchyBuilder :=
  (((withoutAll "Town").addMember none "Norway").addMember country "Oslo").addMember none
    "Norway].[Oslo"

theorem pathBuilder_ambiguous : pathBuilder.Own ∧ pathBuilder.NamesSiblings ∧
    ∃ h, pathBuilder.build = .ok h ∧ ∃ m ∈ h.members, ∃ n ∈ h.members,
      m ≠ n ∧ (m == n) = true ∧ h.lookup? n.uniqueName = some m := by
  have hown : pathBuilder.Own := by
    have hfirst : ((withoutAll "Town").addMember none "Norway").Own :=
      (Own.withoutAll "Town").addMember (by simp) _
    refine (hfirst.addMember (fun parent hparent => ?_) _).addMember (by simp) _
    obtain rfl := Option.some.inj hparent
    exact List.mem_cons_self
  refine ⟨hown, namesSiblings_of_nodup (by decide), _, rfl, _,
    List.mem_cons_of_mem _ List.mem_cons_self, _,
    List.mem_cons_of_mem _ (List.mem_cons_of_mem _ List.mem_cons_self), ?_, rfl, rfl⟩
  intro hsame
  exact absurd (congrArg Member.name hsame) (by decide)

end Sales

end CubeCalc
