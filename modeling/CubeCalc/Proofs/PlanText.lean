import CubeCalc.Proofs.PlanSize
import Mathlib.Data.List.TakeWhile
/-!
# Plans as text

The text of a plan has the entries of its tree from the top down, each ended by a line feed and
indented by four blanks for each level above it. So there is a line for each entry just if no entry
has a line feed of its own. Then what stands in the lines and how far they are indented is enough to
read the tree back, since an entry is above those that follow it further in.
-/

namespace CubeCalc

/-! ### Lines -/

namespace Text

def IsLine (s : String) : Prop := '\n' ∉ s.toList

instance (s : String) : Decidable (IsLine s) := inferInstanceAs (Decidable ('\n' ∉ s.toList))

/-- The lines of a text in which each line is ended by a line feed. -/
def lines (s : String) : List String := (s.toList.splitOn '\n').dropLast.map String.ofList

def unlines (ls : List String) : String := String.join (ls.map (· ++ "\n"))

theorem unlines_cons (l : String) (ls : List String) :
    unlines (l :: ls) = l ++ "\n" ++ unlines ls := by
  rw [unlines, List.map_cons, String.join_cons]
  rfl

theorem unlines_append (ls ls' : List String) :
    unlines (ls ++ ls') = unlines ls ++ unlines ls' := by
  rw [unlines, List.map_append, String.join_append]
  rfl

theorem lines_unlines_cons (l : String) (ls : List String) : lines (unlines (l :: ls)) =
    (l.toList.splitOn '\n').map String.ofList ++ lines (unlines ls) := by
  have hlist : (unlines (l :: ls)).toList = l.toList ++ '\n' :: (unlines ls).toList := by
    rw [unlines_cons]
    simp
  rw [lines, hlist, List.splitOn_append_cons_self,
    List.dropLast_append_of_ne_nil (List.splitOn_ne_nil _ _), List.map_append]
  rfl

theorem lines_unlines {ls : List String} (hls : ∀ l ∈ ls, IsLine l) : lines (unlines ls) = ls := by
  induction ls with
  | nil => rfl
  | cons l rest ih =>
    rw [List.forall_mem_cons] at hls
    rw [lines_unlines_cons, List.splitOn_eq_singleton hls.1, ih hls.2]
    simp

/-- Each line feed within a line makes a further line. -/
theorem length_lines_unlines (ls : List String) : (lines (unlines ls)).length =
    ls.length + (ls.flatMap String.toList).count '\n' := by
  have hpieces : ∀ x : List Char, (x.splitOn '\n').length = 1 + x.count '\n' := by
    intro x
    induction x with
    | nil => rfl
    | cons c rest ih =>
      rw [List.splitOn_cons_eq_if_modifyHead, List.count_cons]
      by_cases hc : (c == '\n') = true
      · rw [if_pos hc, if_pos hc, List.length_cons, ih]
        omega
      · rw [if_neg hc, if_neg hc, List.length_modifyHead, ih]
        omega
  induction ls with
  | nil => rfl
  | cons l rest ih =>
    rw [lines_unlines_cons, List.length_append, List.length_map, hpieces, ih, List.length_cons,
      List.flatMap_cons, List.count_append]
    omega

theorem length_lines_unlines_eq_iff {ls : List String} :
    (lines (unlines ls)).length = ls.length ↔ ∀ l ∈ ls, IsLine l := by
  rw [length_lines_unlines]
  calc ls.length + (ls.flatMap String.toList).count '\n' = ls.length
      ↔ (ls.flatMap String.toList).count '\n' = 0 := by omega
    _ ↔ ∀ l ∈ ls, IsLine l := by simp [List.count_eq_zero, IsLine]

end Text

/-! ### Entries -/

/-- A calc of a plan with the number of calcs above it. -/
structure PlanEntry where
  depth : Nat
  name : String
  arguments : Arguments

namespace PlanEntry

def label (entry : PlanEntry) : String := entry.name ++ "(" ++ entry.arguments.display ++ ")"

def line (entry : PlanEntry) : String :=
  String.ofList (List.replicate (4 * entry.depth) ' ') ++ entry.label

theorem toList_line (entry : PlanEntry) :
    entry.line.toList = List.replicate (4 * entry.depth) ' ' ++ entry.label.toList := by
  rw [line, String.toList_append, String.toList_ofList]

theorem isLine_line {entry : PlanEntry} : Text.IsLine entry.line ↔ Text.IsLine entry.label := by
  rw [Text.IsLine, Text.IsLine, toList_line, List.mem_append, not_or, and_iff_right]
  intro hblank
  exact absurd (List.eq_of_mem_replicate hblank) (by decide)

end PlanEntry

namespace CalcPlan

mutual

/-- The entries of a plan at a depth, from the top down. -/
def entries (depth : Nat) : CalcPlan → List PlanEntry
  | .node name arguments children => ⟨depth, name, arguments⟩ :: entriesOfAll (depth + 1) children

def entriesOfAll (depth : Nat) : List CalcPlan → List PlanEntry
  | [] => []
  | plan :: rest => plan.entries depth ++ entriesOfAll depth rest

end

mutual

theorem length_entries (depth : Nat) :
    ∀ plan : CalcPlan, (plan.entries depth).length = plan.size
  | .node name arguments children => by
    rw [entries, size, List.length_cons, length_entriesOfAll, Nat.add_comm]

theorem length_entriesOfAll (depth : Nat) :
    ∀ plans : List CalcPlan, (entriesOfAll depth plans).length = sizes plans
  | [] => rfl
  | plan :: rest => by
    rw [entriesOfAll, sizes, List.length_append, length_entries, length_entriesOfAll]

end

theorem entriesOfAll_eq_flatMap (depth : Nat) (plans : List CalcPlan) :
    entriesOfAll depth plans = plans.flatMap (entries depth) := by
  induction plans with
  | nil => rfl
  | cons plan rest ih => rw [entriesOfAll, ih, List.flatMap_cons]

end CalcPlan

namespace Calc

theorem entries_plan (c : Calc) (depth : Nat) : c.plan.entries depth =
    ⟨depth, c.className, c.arguments⟩ ::
      c.children.flatMap fun child => child.plan.entries (depth + 1) := by
  have hplan : c.plan = .node c.className c.arguments (c.children.map plan) := foldTree_eq _ c
  rw [hplan, CalcPlan.entries, CalcPlan.entriesOfAll_eq_flatMap, List.flatMap_map]

/-- The text of a plan, indented for its place in a greater one. -/
def explainAt : Calc → Nat → String :=
  foldTree fun c children depth =>
    c.planLine depth ++ String.join (children.map fun child => child (depth + 1))

theorem explainAt_eq (c : Calc) (depth : Nat) : c.explainAt depth = c.planLine depth ++
    String.join (c.children.map fun child => child.explainAt (depth + 1)) := by
  rw [explainAt, foldTree_eq, List.map_map]
  rfl

theorem explainAt_eq_unlines (c : Calc) (depth : Nat) :
    c.explainAt depth = Text.unlines ((c.plan.entries depth).map PlanEntry.line) := by
  induction c using children_induction generalizing depth with
  | step c ih =>
    have hchildren : ∀ children : List Calc, (∀ child ∈ children, child ∈ c.children) →
        String.join (children.map fun child => child.explainAt (depth + 1)) =
          Text.unlines ((children.flatMap fun child => child.plan.entries (depth + 1)).map
            PlanEntry.line) := by
      intro children hall
      induction children with
      | nil => rfl
      | cons child rest ihrest =>
        rw [List.forall_mem_cons] at hall
        rw [List.map_cons, String.join_cons, ih child hall.1, ihrest hall.2, List.flatMap_cons,
          List.map_append, Text.unlines_append]
    rw [explainAt_eq, entries_plan, List.map_cons, Text.unlines_cons,
      hchildren c.children fun _ h => h]
    congr 1
    simp [planLine, PlanEntry.line, PlanEntry.label, String.append_assoc]

theorem explain_eq_unlines (c : Calc) :
    c.explain = Text.unlines ((c.plan.entries 0).map PlanEntry.line) := c.explainAt_eq_unlines 0

variable {c : Calc}

/-- There are as many lines as calcs if no label is broken up, and only then. -/
theorem length_lines_explain_eq_iff : (Text.lines c.explain).length = c.plan.size ↔
    ∀ entry ∈ c.plan.entries 0, Text.IsLine entry.label := by
  rw [explain_eq_unlines, ← CalcPlan.length_entries 0 c.plan, ← List.length_map PlanEntry.line,
    Text.length_lines_unlines_eq_iff, List.forall_mem_map]
  simp only [PlanEntry.isLine_line]

theorem lines_explain (hlabels : ∀ entry ∈ c.plan.entries 0, Text.IsLine entry.label) :
    Text.lines c.explain = (c.plan.entries 0).map PlanEntry.line := by
  rw [explain_eq_unlines]
  exact Text.lines_unlines (List.forall_mem_map.mpr fun entry hentry =>
    PlanEntry.isLine_line.mpr (hlabels entry hentry))

end Calc

/-! ### Outlines -/

/-- What the text of a plan shows of its tree. -/
inductive Outline where
  | node (label : String) (children : List Outline)

mutual

def CalcPlan.outline : CalcPlan → Outline
  | .node name arguments children =>
    .node (name ++ "(" ++ arguments.display ++ ")") (CalcPlan.outlines children)

def CalcPlan.outlines : List CalcPlan → List Outline
  | [] => []
  | plan :: rest => plan.outline :: CalcPlan.outlines rest

end

namespace Outline

/-- The depth of a line and what stands behind its indent. -/
def ofLine (line : String) : Nat × String :=
  ((line.toList.takeWhile (· == ' ')).length / 4,
    String.ofList (line.toList.dropWhile (· == ' ')))

/-- Puts a label above the trees that follow it further in. -/
def place (entry : Nat × String) (trees : List (Nat × Outline)) : List (Nat × Outline) :=
  (entry.1, .node entry.2 ((trees.takeWhile fun tree => entry.1 < tree.1).map (·.2))) ::
    trees.dropWhile fun tree => entry.1 < tree.1

/-- Reads trees back from the lines that show them. -/
def ofLines (lines : List String) : List Outline := ((lines.map ofLine).foldr place []).map (·.2)

theorem ofLine_line {entry : PlanEntry} (hname : entry.name.toList.head? ≠ some ' ') :
    ofLine entry.line = (entry.depth, entry.label) := by
  have hblank : ∀ c ∈ List.replicate (4 * entry.depth) ' ', (c == ' ') = true := by
    intro c hc
    rw [List.eq_of_mem_replicate hc]
    rfl
  have hhead : ∃ c rest, entry.label.toList = c :: rest ∧ (c == ' ') = false := by
    cases hcase : entry.name.toList with
    | nil =>
      exact ⟨'(', entry.arguments.display.toList ++ [')'], by simp [PlanEntry.label, hcase], rfl⟩
    | cons c rest =>
      exact ⟨c, rest ++ ('(' :: (entry.arguments.display.toList ++ [')'])),
        by simp [PlanEntry.label, hcase], by simpa [hcase] using hname⟩
  obtain ⟨c, rest, hlabel, hc⟩ := hhead
  rw [ofLine, PlanEntry.toList_line, List.takeWhile_append_of_pos hblank,
    List.dropWhile_append_of_pos hblank, hlabel, List.takeWhile_cons_of_neg (by simp [hc]),
    List.dropWhile_cons_of_neg (by simp [hc]), ← hlabel, String.ofList_toList, List.append_nil,
    List.length_replicate, Nat.mul_div_cancel_left _ (by decide)]

mutual

/-- What comes behind a plan, and not below it, stays where it is. -/
theorem foldr_place_entries (depth : Nat) (rest : List (Nat × Outline))
    (hrest : ∀ tree ∈ rest.head?, tree.1 ≤ depth) : ∀ plan : CalcPlan,
      ((plan.entries depth).map fun entry => (entry.depth, entry.label)).foldr place rest =
        (depth, plan.outline) :: rest
  | .node name arguments children => by
    -- The children are further in than the plan, and what comes behind them is not.
    have hbelow : ∀ tree ∈ rest.head?, tree.1 ≤ depth + 1 := fun tree htree =>
      Nat.le_succ_of_le (hrest tree htree)
    have hfurther : ∀ tree ∈ (CalcPlan.outlines children).map (depth + 1, ·),
        decide (depth < tree.1) = true := by
      intro tree htree
      obtain ⟨outline, -, rfl⟩ := List.mem_map.mp htree
      exact decide_eq_true (Nat.lt_succ_self depth)
    have hbehind : rest.takeWhile (fun tree => depth < tree.1) = [] ∧
        rest.dropWhile (fun tree => depth < tree.1) = rest := by
      cases rest with
      | nil => exact ⟨rfl, rfl⟩
      | cons tree others =>
        have hle : ¬ depth < tree.1 := Nat.not_lt.mpr (hrest tree rfl)
        exact ⟨List.takeWhile_cons_of_neg (by simpa using hle),
          List.dropWhile_cons_of_neg (by simpa using hle)⟩
    rw [CalcPlan.entries, List.map_cons, List.foldr_cons,
      foldr_place_entriesOfAll (depth + 1) rest hbelow children, place,
      List.takeWhile_append_of_pos hfurther, List.dropWhile_append_of_pos hfurther, hbehind.1,
      hbehind.2, List.append_nil, List.map_map, CalcPlan.outline]
    exact congrArg (fun below => (depth, node _ below) :: rest) (List.map_id _)

theorem foldr_place_entriesOfAll (depth : Nat) (rest : List (Nat × Outline))
    (hrest : ∀ tree ∈ rest.head?, tree.1 ≤ depth) : ∀ plans : List CalcPlan,
      ((CalcPlan.entriesOfAll depth plans).map fun entry => (entry.depth, entry.label)).foldr
          place rest =
        (CalcPlan.outlines plans).map (depth, ·) ++ rest
  | [] => rfl
  | plan :: others => by
    have hhead : ∀ tree ∈ ((CalcPlan.outlines others).map (depth, ·) ++ rest).head?,
        tree.1 ≤ depth := by
      intro tree htree
      cases hcase : CalcPlan.outlines others with
      | nil => exact hrest tree (by simpa [hcase] using htree)
      | cons outline more =>
        obtain rfl : (depth, outline) = tree := by simpa [hcase] using htree
        exact Nat.le_refl depth
    rw [CalcPlan.entriesOfAll, List.map_append, List.foldr_append,
      foldr_place_entriesOfAll depth rest hrest others, foldr_place_entries depth _ hhead plan]
    rfl

end

/-- A plan is read back from its lines. -/
theorem ofLines_lines {plan : CalcPlan}
    (hnames : ∀ entry ∈ plan.entries 0, entry.name.toList.head? ≠ some ' ') :
    ofLines ((plan.entries 0).map PlanEntry.line) = [plan.outline] := by
  have hread : ((plan.entries 0).map PlanEntry.line).map ofLine =
      (plan.entries 0).map fun entry => (entry.depth, entry.label) := by
    rw [List.map_map]
    exact List.map_congr_left fun entry hentry => ofLine_line (hnames entry hentry)
  rw [ofLines, hread, foldr_place_entries 0 [] (by simp) plan]
  rfl

end Outline

end CubeCalc
