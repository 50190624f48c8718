import CubeCalc.Failure
import Mathlib.Tactic.Common
/-!
# Reasoning about outcomes

What an outcome guarantees is said of its result and of its failure at once, and is carried through
a sequence of steps. Two outcomes are compared in the same way, except that the first may have
failed for want of room.
-/

namespace CubeCalc.Outcome

variable {α β γ δ : Type}

theorem bind_eq_ok_iff {o : Outcome α} {f : α → Outcome β} {b : β} :
    o >>= f = .ok b ↔ ∃ a, o = .ok a ∧ f a = .ok b := by
  cases o <;> simp [bind, Except.bind]

theorem map_eq_ok_iff {o : Outcome α} {g : α → β} {b : β} :
    o.map g = .ok b ↔ ∃ a, o = .ok a ∧ g a = b := by
  cases o <;> simp [Except.map]

/-- Two continuations that agree on the result are as good as one. -/
theorem bind_congr {o : Outcome α} {f g : α → Outcome β} (h : ∀ a, o = .ok a → f a = g a) :
    o >>= f = o >>= g := by
  cases o with
  | error failure => rfl
  | ok a => exact h a rfl

@[simp]
theorem ok_bind (a : α) (f : α → Outcome β) : (Except.ok a : Outcome α) >>= f = f a := rfl

@[simp]
theorem error_bind (failure : Failure) (f : α → Outcome β) :
    (Except.error failure : Outcome α) >>= f = .error failure := rfl

/-! ### Results under a function -/

@[simp]
theorem map_ok (g : α → β) (a : α) : Except.map g (.ok a : Outcome α) = .ok (g a) := rfl

@[simp]
theorem map_pure (g : α → β) (a : α) : Except.map g (pure a : Outcome α) = .ok (g a) := rfl

@[simp]
theorem map_fail (g : α → β) (cause : CalcError) :
    Except.map g (fail cause : Outcome α) = fail cause := rfl

theorem map_bind (g : β → γ) (o : Outcome α) (f : α → Outcome β) :
    (o >>= f).map g = o >>= fun a => (f a).map g := by
  cases o <;> rfl

theorem bind_map (g : α → β) (o : Outcome α) (f : β → Outcome γ) :
    o.map g >>= f = o >>= fun a => f (g a) := by
  cases o <;> rfl

/-- Two folds are one if their steps agree on all elements. -/
theorem foldlM_congr {f g : β → α → Outcome β} :
    ∀ {l : List α} (start : β), (∀ a ∈ l, ∀ b, f b a = g b a) → l.foldlM f start = l.foldlM g start
  | [], _, _ => rfl
  | a :: rest, start, hfg => by
    rw [List.forall_mem_cons] at hfg
    rw [List.foldlM_cons, List.foldlM_cons, hfg.1]
    exact bind_congr fun b _ => foldlM_congr b hfg.2

/-- One fold comes to what another comes to if their steps do. -/
theorem foldlM_map {f : β → α → Outcome β} {g : γ → α → Outcome γ} {t : β → γ}
    (hstep : ∀ b a, g (t b) a = (f b a).map t) (l : List α) (start : β) :
    l.foldlM g (t start) = (l.foldlM f start).map t := by
  induction l generalizing start with
  | nil => rfl
  | cons a rest ih =>
    rw [List.foldlM_cons, List.foldlM_cons, hstep, bind_map, map_bind]
    exact bind_congr fun b _ => ih b

/-! ### Guarantees -/

/-- A result has one property, and a failure another. -/
def Meets (P : α → Prop) (Q : Failure → Prop) : Outcome α → Prop
  | .ok a => P a
  | .error failure => Q failure

variable {P : α → Prop} {Q : Failure → Prop} {o : Outcome α}

@[simp]
theorem meets_ok {a : α} : Meets P Q (.ok a) ↔ P a := Iff.rfl

@[simp]
theorem meets_pure {a : α} : Meets P Q (pure a) ↔ P a := Iff.rfl

@[simp]
theorem meets_error {failure : Failure} : Meets P Q (.error failure) ↔ Q failure := Iff.rfl

@[simp]
theorem meets_fail {cause : CalcError} : Meets P Q (fail cause) ↔ Q (.error cause) := Iff.rfl

@[simp]
theorem meets_violate {cause : Violation} :
    Meets P Q (violate cause) ↔ Q (.violation cause) := Iff.rfl

theorem Meets.of_ok (ho : Meets P Q o) {a : α} (h : o = .ok a) : P a := by
  subst h
  exact ho

theorem Meets.of_error (ho : Meets P Q o) {failure : Failure} (h : o = .error failure) :
    Q failure := by
  subst h
  exact ho

/-- What cannot fail comes to a result. -/
theorem Meets.exists_ok (ho : Meets P (fun _ => False) o) : ∃ a, o = .ok a ∧ P a := by
  cases o with
  | error failure => exact ho.elim
  | ok a => exact ⟨a, rfl, ho⟩

theorem Meets.eq_ok (ho : Meets P Q o) : Meets (fun a => o = .ok a) Q o := by
  cases o with
  | error failure => exact ho
  | ok a => rfl

theorem Meets.mono {P' : α → Prop} {Q' : Failure → Prop} (ho : Meets P Q o) (hP : ∀ a, P a → P' a)
    (hQ : ∀ failure, Q failure → Q' failure) : Meets P' Q' o := by
  cases o with
  | error failure => exact hQ failure ho
  | ok a => exact hP a ho

theorem Meets.bind {P' : β → Prop} {f : α → Outcome β} (ho : Meets P Q o)
    (hf : ∀ a, P a → Meets P' Q (f a)) : Meets P' Q (o >>= f) := by
  cases o with
  | error failure => exact ho
  | ok a => exact hf a ho

/-- What holds of a result however it is continued holds after any first step. -/
theorem meets_bind_of_forall {P : β → Prop} {f : α → Outcome β}
    (hf : ∀ a, Meets P (fun _ => True) (f a)) : Meets P (fun _ => True) (o >>= f) := by
  cases o with
  | error failure => trivial
  | ok a => exact hf a

/-- What every step of a fold keeps holds of its result. -/
theorem meets_foldlM {P : β → Prop} {step : β → α → Outcome β} :
    ∀ {l : List α} {start : β}, P start → (∀ b a, a ∈ l → P b → Meets P Q (step b a)) →
      Meets P Q (l.foldlM step start)
  | [], _, hstart, _ => hstart
  | a :: rest, start, hstart, hstep => by
    rw [List.foldlM_cons]
    refine (hstep start a List.mem_cons_self hstart).bind fun b hb => ?_
    exact meets_foldlM hb fun b' a' ha' => hstep b' a' (List.mem_cons_of_mem _ ha')

/-! ### Two outcomes -/

/-- Two outcomes are of one kind: the same failure, or results that are related. -/
inductive Matches {α β : Type*} (R : α → β → Prop) : Outcome α → Outcome β → Prop where
  | failed (failure : Failure) : Matches R (.error failure) (.error failure)
  | ok {a : α} {b : β} (h : R a b) : Matches R (.ok a) (.ok b)

/-- What matches after a first step in common matches. -/
theorem Matches.bind_self {S : γ → δ → Prop} (x : Outcome α) {f : α → Outcome γ}
    {g : α → Outcome δ} (hfg : ∀ a, x = .ok a → Matches S (f a) (g a)) :
    Matches S (x >>= f) (x >>= g) := by
  cases x with
  | error failure => exact .failed failure
  | ok a => exact hfg a rfl

theorem Matches.mono {α β : Type*} {R S : α → β → Prop} {x : Outcome α} {y : Outcome β}
    (h : Matches R x y) (hRS : ∀ a b, R a b → S a b) : Matches S x y := by
  cases h with
  | failed failure => exact .failed failure
  | ok h => exact .ok (hRS _ _ h)

theorem Matches.bind {R : α → β → Prop} {S : γ → δ → Prop} {x : Outcome α} {y : Outcome β}
    {f : α → Outcome γ} {g : β → Outcome δ} (h : Matches R x y)
    (hfg : ∀ a b, R a b → Matches S (f a) (g b)) : Matches S (x >>= f) (y >>= g) := by
  cases h with
  | failed failure => exact .failed failure
  | ok h => exact hfg _ _ h

theorem Matches.trans {R : α → β → Prop} {S : β → γ → Prop} {T : α → γ → Prop} {x : Outcome α}
    {y : Outcome β} {z : Outcome γ} (hxy : Matches R x y) (hyz : Matches S y z)
    (hT : ∀ a b c, R a b → S b c → T a c) : Matches T x z := by
  cases hxy with
  | failed failure =>
    cases hyz
    exact .failed failure
  | ok hab =>
    cases hyz with
    | ok hbc => exact .ok (hT _ _ _ hab hbc)

theorem matches_foldlM {R : β → γ → Prop} {f : β → α → Outcome β} {g : γ → α → Outcome γ} :
    ∀ {l : List α} {b : β} {c : γ}, R b c → (∀ b c a, R b c → Matches R (f b a) (g c a)) →
      Matches R (l.foldlM f b) (l.foldlM g c)
  | [], _, _, h, _ => .ok h
  | a :: rest, b, c, h, hstep => by
    rw [List.foldlM_cons, List.foldlM_cons]
    exact (hstep b c a h).bind fun b' c' h' => matches_foldlM h' hstep

theorem Matches.map {α β γ δ : Type*} {R : α → β → Prop} {S : γ → δ → Prop} {x : Outcome α}
    {y : Outcome β} {f : α → γ} {g : β → δ} (h : Matches R x y)
    (hfg : ∀ a b, R a b → S (f a) (g b)) : Matches S (x.map f) (y.map g) := by
  cases h with
  | failed failure => exact .failed failure
  | ok h => exact .ok (hfg _ _ h)

theorem Matches.exists_of_ok {α β : Type*} {R : α → β → Prop} {x : Outcome α} {y : Outcome β}
    (h : Matches R x y) {a : α} (hx : x = .ok a) : ∃ b, y = .ok b ∧ R a b := by
  cases h with
  | failed failure => cases hx
  | @ok result b hrelated =>
    obtain rfl := Except.ok.inj hx
    exact ⟨b, rfl, hrelated⟩

/-- Reading the results of a list one by one is reading them all. -/
theorem mapM_eq_ok {f : α → Outcome β} {g : α → β} :
    ∀ {l : List α}, (∀ a ∈ l, f a = .ok (g a)) → l.mapM f = .ok (l.map g)
  | [], _ => rfl
  | a :: rest, hf => by
    rw [List.forall_mem_cons] at hf
    rw [List.mapM_cons, hf.1, mapM_eq_ok hf.2]
    rfl

/-- The first failure ends the reading of a list. -/
theorem mapM_eq_error {f : α → Outcome β} {before after : List α} {a : α} {failure : Failure}
    (hbefore : ∀ other ∈ before, ∃ b, f other = .ok b) (ha : f a = .error failure) :
    (before ++ a :: after).mapM f = .error failure := by
  induction before with
  | nil =>
    rw [List.nil_append, List.mapM_cons, ha]
    rfl
  | cons first before ih =>
    rw [List.forall_mem_cons] at hbefore
    obtain ⟨⟨b, hfirst⟩, hrest⟩ := hbefore
    rw [List.cons_append, List.mapM_cons, hfirst, ih hrest]
    rfl

/-- What each step keeps of its argument is kept of all of them. -/
theorem map_of_mapM_eq_ok {f : α → Outcome β} {g : α → γ} {kept : β → γ}
    (hf : ∀ a b, f a = .ok b → kept b = g a) :
    ∀ {l : List α} {results : List β}, l.mapM f = .ok results → results.map kept = l.map g
  | [], _, h => by
    rw [← Except.ok.inj h]
    rfl
  | a :: rest, results, h => by
    rw [List.mapM_cons] at h
    obtain ⟨first, hfirst, h⟩ := bind_eq_ok_iff.mp h
    obtain ⟨others, hothers, h⟩ := bind_eq_ok_iff.mp h
    rw [← Except.ok.inj h, List.map_cons, List.map_cons, hf a first hfirst,
      map_of_mapM_eq_ok hf hothers]

theorem length_of_mapM_eq_ok {f : α → Outcome β} {l : List α} {results : List β}
    (h : l.mapM f = .ok results) : results.length = l.length := by
  have hkept : results.map (fun _ => ()) = l.map fun _ => () :=
    map_of_mapM_eq_ok (fun _ _ _ => rfl) h
  simpa using congrArg List.length hkept

theorem mapM_range_eq :
    ∀ {list : List α} {f : Nat → Outcome α}, (∀ i (hi : i < list.length), f i = .ok list[i]) →
      (List.range list.length).mapM f = .ok list
  | [], f, _ => rfl
  | first :: rest, f, hf => by
    have hrest : (List.range rest.length).mapM (fun i => f (i + 1)) = .ok rest :=
      mapM_range_eq fun i hi => hf (i + 1) (Nat.succ_lt_succ hi)
    rw [List.length_cons, List.range_succ_eq_map, List.mapM_cons, hf 0 (Nat.succ_pos _),
      List.mapM_map]
    change (do return first :: (← (List.range rest.length).mapM fun i => f (i + 1))) = _
    rw [hrest]
    rfl

/-- The second outcome repeats the first one, unless the first came to the end of its limit. -/
inductive Follows (R : α → β → Prop) : Outcome α → Outcome β → Prop where
  | exceeded (attempted limit : Nat) (other : Outcome β) :
    Follows R (fail (.limitExceeded attempted limit)) other
  | failed (failure : Failure) : Follows R (.error failure) (.error failure)
  | ok {a : α} {b : β} (h : R a b) : Follows R (.ok a) (.ok b)

theorem Follows.bind {R : α → β → Prop} {S : γ → δ → Prop} {x : Outcome α} {y : Outcome β}
    {f : α → Outcome γ} {g : β → Outcome δ} (h : Follows R x y)
    (hfg : ∀ a b, R a b → Follows S (f a) (g b)) : Follows S (x >>= f) (y >>= g) := by
  cases h with
  | exceeded attempted limit => exact .exceeded attempted limit _
  | failed failure => exact .failed failure
  | ok h => exact hfg _ _ h

theorem Follows.refl {R : α → α → Prop} (hR : ∀ a, R a a) (o : Outcome α) : Follows R o o := by
  cases o with
  | error failure => exact .failed failure
  | ok a => exact .ok (hR a)

/-- What follows a first step in common follows from it. -/
theorem Follows.bind_self {S : γ → δ → Prop} (x : Outcome α) {f : α → Outcome γ}
    {g : α → Outcome δ} (hfg : ∀ a, Follows S (f a) (g a)) : Follows S (x >>= f) (x >>= g) := by
  cases x with
  | error failure => exact .failed failure
  | ok a => exact hfg a

theorem follows_foldlM {R : β → γ → Prop} {f : β → α → Outcome β} {g : γ → α → Outcome γ} :
    ∀ {l : List α} {b : β} {c : γ}, R b c →
      (∀ b c a, a ∈ l → R b c → Follows R (f b a) (g c a)) →
      Follows R (l.foldlM f b) (l.foldlM g c)
  | [], _, _, h, _ => .ok h
  | a :: rest, b, c, h, hstep => by
    rw [List.foldlM_cons, List.foldlM_cons]
    refine (hstep b c a List.mem_cons_self h).bind fun b' c' h' => ?_
    exact follows_foldlM h' fun b c a' ha' => hstep b c a' (List.mem_cons_of_mem _ ha')

end CubeCalc.Outcome
