import Mathlib.Data.List.Forall2

/-!
# Related lists and outcomes

Two computations that treat related elements alike have related results.  Here are the steps that
such computations are made of, for lists whose elements are related one by one, for options, and for
runs that may fail.
-/

open Relator

namespace SchemaDesign

/-! ### Lists and options -/

section Lists

variable {α β γ δ : Type} {r : α → β → Prop} {s : γ → δ → Prop} {xs : List α} {ys : List β}

theorem forall₂_find? (h : List.Forall₂ r xs ys) {p : α → Bool} {q : β → Bool}
    (hpq : ∀ x y, r x y → p x = q y) : Option.Rel r (xs.find? p) (ys.find? q) := by
  induction h with
  | nil => exact .none
  | @cons x y xs ys hxy _ ih =>
      rw [List.find?_cons, List.find?_cons, hpq x y hxy]
      cases q y with
      | true => exact .some hxy
      | false => exact ih

theorem forall₂_filter (h : List.Forall₂ r xs ys) {p : α → Bool} {q : β → Bool}
    (hpq : ∀ x y, r x y → p x = q y) : List.Forall₂ r (xs.filter p) (ys.filter q) := by
  refine List.rel_filter ?_ h
  intro x y hxy
  simp only [hpq x y hxy]

theorem map_eq_of_forall₂ (h : List.Forall₂ r xs ys) {f : α → γ} {g : β → γ}
    (hfg : ∀ x y, r x y → f x = g y) : xs.map f = ys.map g := by
  rw [← List.forall₂_eq_eq_eq]
  exact List.rel_map (fun x y hxy => hfg x y hxy) h

theorem filterMap_eq_of_forall₂ (h : List.Forall₂ r xs ys) {f : α → Option γ} {g : β → Option γ}
    (hfg : ∀ x y, r x y → f x = g y) : xs.filterMap f = ys.filterMap g := by
  induction h with
  | nil => rfl
  | @cons x y xs ys hxy _ ih => rw [List.filterMap_cons, List.filterMap_cons, hfg x y hxy, ih]

/-- The results of a partial function belong to the elements at which it is defined. -/
theorem forall₂_filterMap (f : α → Option β) (list : List α) :
    List.Forall₂ (fun x y => f x = some y) (list.filter fun x => (f x).isSome)
      (list.filterMap f) := by
  induction list with
  | nil => exact .nil
  | cons x list ih =>
      rw [List.filter_cons, List.filterMap_cons]
      cases hx : f x with
      | none => exact ih
      | some y => exact .cons hx ih

/-- The results come in the order of those elements that have one, whatever their positions. -/
theorem forall₂_filterMap_zipIdx (make : α × Nat → Option β) (made : α → Bool)
    (hmade : ∀ x position, (make (x, position)).isSome = made x) (list : List α) (start : Nat) :
    List.Forall₂ (fun x y => ∃ position, make (x, position) = some y) (list.filter made)
      ((list.zipIdx start).filterMap make) := by
  have hresults := forall₂_filterMap make (list.zipIdx start)
  have hfilter : ((list.zipIdx start).filter fun x => (make x).isSome).map Prod.fst =
      list.filter made := by
    conv_rhs => rw [← List.zipIdx_map_fst start list, List.filter_map]
    refine congrArg _ (List.filter_congr fun x _ => ?_)
    exact hmade x.1 x.2
  rw [← hfilter, List.forall₂_map_left_iff]
  exact hresults.imp fun x y h => ⟨x.2, h⟩

theorem exists_of_forall₂ (h : List.Forall₂ r xs ys) {x : α} (hx : x ∈ xs) :
    ∃ y ∈ ys, r x y := by
  induction h with
  | nil => simp at hx
  | @cons first first' xs ys hfirst _ ih =>
      rcases List.mem_cons.mp hx with rfl | hx
      · exact ⟨first', List.mem_cons_self, hfirst⟩
      · obtain ⟨y, hy, hxy⟩ := ih hx
        exact ⟨y, List.mem_cons_of_mem _ hy, hxy⟩

theorem forall₂_and_mem_zip (h : List.Forall₂ r xs ys) :
    List.Forall₂ (fun x y => r x y ∧ (x, y) ∈ xs.zip ys) xs ys := by
  rw [List.forall₂_iff_zip]
  exact ⟨h.length_eq, fun hmem => ⟨List.forall₂_zip h hmem, hmem⟩⟩

theorem forall₂_takeWhile (h : List.Forall₂ r xs ys) {p : α → Bool} {q : β → Bool}
    (hpq : ∀ x y, r x y → p x = q y) : List.Forall₂ r (xs.takeWhile p) (ys.takeWhile q) := by
  induction h with
  | nil => exact .nil
  | @cons x y xs ys hxy _ ih =>
      rw [List.takeWhile_cons, List.takeWhile_cons, hpq x y hxy]
      cases q y with
      | true => exact .cons hxy ih
      | false => exact .nil

theorem forall₂_dropWhile (h : List.Forall₂ r xs ys) {p : α → Bool} {q : β → Bool}
    (hpq : ∀ x y, r x y → p x = q y) : List.Forall₂ r (xs.dropWhile p) (ys.dropWhile q) := by
  induction h with
  | nil => exact .nil
  | @cons x y xs ys hxy hrest ih =>
      rw [List.dropWhile_cons, List.dropWhile_cons, hpq x y hxy]
      cases q y with
      | true => exact ih
      | false => exact .cons hxy hrest

theorem forall₂_getLastD (h : List.Forall₂ r xs ys) {x : α} {y : β} (hxy : r x y) :
    r (xs.getLastD x) (ys.getLastD y) := by
  induction h generalizing x y with
  | nil => exact hxy
  | cons hhead _ ih =>
      rw [List.getLastD_cons, List.getLastD_cons]
      exact ih hhead

/-- Related elements stand at the same position. -/
theorem forall₂_zipIdx (h : List.Forall₂ r xs ys) (start : Nat) :
    List.Forall₂ (fun x y => r x.1 y.1 ∧ x.2 = y.2) (xs.zipIdx start) (ys.zipIdx start) := by
  induction h generalizing start with
  | nil => exact .nil
  | cons hxy _ ih => exact .cons ⟨hxy, rfl⟩ (ih (start + 1))

theorem forall₂_eraseDups [BEq α] [LawfulBEq α] [BEq β] [LawfulBEq β] (hr : BiUnique r)
    {xs : List α} {ys : List β} (h : List.Forall₂ r xs ys) :
    List.Forall₂ r xs.eraseDups ys.eraseDups := by
  match h with
  | .nil => exact .nil
  | @List.Forall₂.cons _ _ _ x y xs ys hxy hrest =>
      have hothers : List.Forall₂ r (xs.filter fun z => !z == x) (ys.filter fun z => !z == y) :=
        forall₂_filter hrest fun z w hzw => by
          rw [Bool.eq_iff_iff]
          simp [rel_eq hr hzw hxy]
      rw [List.eraseDups_cons, List.eraseDups_cons]
      exact .cons hxy (forall₂_eraseDups hr hothers)
termination_by xs.length
decreasing_by exact Nat.lt_succ_of_le (List.length_filter_le _ _)

variable {x : Option α} {y : Option β}

theorem isSome_eq_of_rel (h : Option.Rel r x y) : x.isSome = y.isSome := by
  cases h <;> rfl

theorem forall₂_toList (h : Option.Rel r x y) : List.Forall₂ r x.toList y.toList := by
  cases h with
  | none => exact .nil
  | some hab => exact .cons hab .nil

theorem rel_option_map (h : Option.Rel r x y) {f : α → γ} {g : β → δ}
    (hfg : ∀ a b, r a b → s (f a) (g b)) : Option.Rel s (x.map f) (y.map g) := by
  cases h with
  | none => exact .none
  | some hab => exact .some (hfg _ _ hab)

theorem rel_option_bind (h : Option.Rel r x y) {f : α → Option γ} {g : β → Option δ}
    (hfg : ∀ a b, r a b → Option.Rel s (f a) (g b)) : Option.Rel s (x.bind f) (y.bind g) := by
  cases h with
  | none => exact .none
  | some hab => exact hfg _ _ hab

theorem rel_option_mapM (h : List.Forall₂ r xs ys) {f : α → Option γ} {g : β → Option δ}
    (hfg : ∀ x y, r x y → Option.Rel s (f x) (g y)) :
    Option.Rel (List.Forall₂ s) (xs.mapM f) (ys.mapM g) := by
  induction h with
  | nil => exact .some .nil
  | @cons x y xs ys hxy _ ih =>
      rw [List.mapM_cons, List.mapM_cons]
      exact rel_option_bind (hfg x y hxy) fun a b hab =>
        rel_option_bind ih fun as bs hall => .some (.cons hab hall)

theorem mapM_eq_some_iff {f : α → Option β} {list : List α} {results : List β} :
    list.mapM f = some results ↔ List.Forall₂ (fun x y => f x = some y) list results := by
  induction list generalizing results with
  | nil => simp [eq_comm]
  | cons x list ih =>
      rw [List.mapM_cons, List.forall₂_cons_left_iff]
      constructor
      · intro h
        obtain ⟨y, hy, hmore⟩ := Option.bind_eq_some_iff.mp h
        obtain ⟨ys, hys, hresults⟩ := Option.bind_eq_some_iff.mp hmore
        exact ⟨y, ys, hy, ih.mp hys, (Option.some.inj hresults).symm⟩
      · rintro ⟨y, ys, hy, hys, rfl⟩
        rw [hy, ih.mpr hys]
        rfl

end Lists

/-! ### Runs that may fail -/

theorem exists_of_map_eq_ok {ε α β : Type} {result : Except ε α} {f : α → β} {y : β}
    (h : result.map f = .ok y) : ∃ x, result = .ok x ∧ f x = y := by
  cases result with
  | error e => simp [Except.map] at h
  | ok x => exact ⟨x, rfl, Except.ok.inj h⟩

theorem map_eq_error_iff {ε α β : Type} {result : Except ε α} {f : α → β} {e : ε} :
    result.map f = .error e ↔ result = .error e := by
  cases result <;> simp [Except.map]

theorem exists_ok_of_toOption {ε α β : Type} {result : Except ε α} {f : α → β} {b : β}
    (hmap : result.toOption.map f = some b) : ∃ a, result = .ok a ∧ f a = b := by
  cases result with
  | error e => simp [Except.toOption] at hmap
  | ok a => exact ⟨a, rfl, Option.some.inj hmap⟩

theorem mapError_eq_ok_iff {ε δ α : Type} {result : Except ε α} {f : ε → δ} {x : α} :
    result.mapError f = .ok x ↔ result = .ok x := by
  cases result <;> simp [Except.mapError]

theorem mapError_eq_error_iff {ε δ α : Type} {result : Except ε α} {f : ε → δ} {e : δ} :
    result.mapError f = .error e ↔ ∃ x, result = .error x ∧ f x = e := by
  cases result <;> simp [Except.mapError]

theorem exists_of_bind_eq_ok {ε α β : Type} {result : Except ε α} {f : α → Except ε β} {y : β}
    (h : result.bind f = .ok y) : ∃ x, result = .ok x ∧ f x = .ok y := by
  cases result with
  | error e => simp [Except.bind] at h
  | ok x => exact ⟨x, rfl, h⟩

/-- A run over a list succeeds when it does at every element, and collects the results. -/
theorem mapM_eq_ok_iff {ε α β : Type} {f : α → Except ε β} {list : List α} {results : List β} :
    list.mapM f = .ok results ↔ List.Forall₂ (fun x y => f x = .ok y) list results := by
  induction list generalizing results with
  | nil =>
      simp only [List.mapM_nil, pure, Except.pure, Except.ok.injEq]
      cases results <;> simp
  | cons x list ih =>
      rw [List.mapM_cons]
      cases hx : f x with
      | error e => cases results <;> simp [bind, Except.bind, hx]
      | ok y =>
          cases hrest : list.mapM f with
          | error e => cases results <;> simp [bind, Except.bind, hx, ← ih, hrest]
          | ok ys => cases results <;> simp [bind, Except.bind, pure, Except.pure, hx, ← ih, hrest]

theorem exists_mapM_eq_ok {ε α β : Type} {f : α → Except ε β} {list : List α}
    (h : ∀ x ∈ list, ∃ y, f x = .ok y) : ∃ results, list.mapM f = .ok results := by
  induction list with
  | nil => exact ⟨[], rfl⟩
  | cons x list ih =>
      rcases h x (by simp) with ⟨y, hy⟩
      rcases ih fun z hz => h z (List.mem_cons_of_mem _ hz) with ⟨results, hresults⟩
      exact ⟨y :: results, mapM_eq_ok_iff.mpr (.cons hy (mapM_eq_ok_iff.mp hresults))⟩

/-- A run over a list fails at the first element where it does. -/
theorem mapM_eq_error_iff {ε α β : Type} {f : α → Except ε β} {list : List α} {e : ε} :
    list.mapM f = .error e ↔
      ∃ before x after, list = before ++ x :: after ∧ (∀ y ∈ before, ∃ z, f y = .ok z) ∧
        f x = .error e := by
  constructor
  · intro h
    induction list with
    | nil => simp [pure, Except.pure] at h
    | cons x list ih =>
        rw [List.mapM_cons] at h
        cases hx : f x with
        | error e' =>
            have hsame : e' = e := by simpa [bind, Except.bind, hx] using h
            exact ⟨[], x, list, rfl, by simp, hsame ▸ hx⟩
        | ok y =>
            cases hrest : list.mapM f with
            | error e' =>
                have hsame : e' = e := by simpa [bind, Except.bind, hx, hrest] using h
                obtain ⟨before, z, after, rfl, hbefore, hfail⟩ := ih (hsame ▸ hrest)
                refine ⟨x :: before, z, after, rfl, ?_, hfail⟩
                exact List.forall_mem_cons.mpr ⟨⟨y, hx⟩, hbefore⟩
            | ok ys => simp [bind, Except.bind, pure, Except.pure, hx, hrest] at h
  · rintro ⟨before, x, after, rfl, hbefore, hx⟩
    obtain ⟨results, hresults⟩ := exists_mapM_eq_ok hbefore
    rw [List.mapM_append, hresults]
    simp [bind, Except.bind, hx]

/-- Two runs fail with the same error, or both succeed with related results. -/
inductive SameOutcome {ε α β : Type} (r : α → β → Prop) : Except ε α → Except ε β → Prop where
  | ok {x : α} {y : β} (h : r x y) : SameOutcome r (.ok x) (.ok y)
  | error (e : ε) : SameOutcome r (.error e) (.error e)

namespace SameOutcome

variable {ε α β γ δ : Type} {r : α → β → Prop} {s : γ → δ → Prop}

theorem map {x : Except ε α} {y : Except ε β} (h : SameOutcome r x y) {f : α → γ} {g : β → δ}
    (hfg : ∀ a b, r a b → s (f a) (g b)) : SameOutcome s (x.map f) (y.map g) := by
  cases h with
  | ok hab => exact .ok (hfg _ _ hab)
  | error e => exact .error e

theorem map_right {t : α → γ → Prop} {x : Except ε α} {y : Except ε β} (h : SameOutcome r x y)
    {f : β → γ} (hf : ∀ a b, r a b → t a (f b)) : SameOutcome t x (y.map f) := by
  cases h with
  | ok hab => exact .ok (hf _ _ hab)
  | error e => exact .error e

theorem imp {r' : α → β → Prop} {x : Except ε α} {y : Except ε β} (h : SameOutcome r x y)
    (hr : ∀ a b, r a b → r' a b) : SameOutcome r' x y := by
  cases h with
  | ok hab => exact .ok (hr _ _ hab)
  | error e => exact .error e

theorem mapError {ζ : Type} {x : Except ε α} {y : Except ε β} (h : SameOutcome r x y)
    (f : ε → ζ) : SameOutcome r (x.mapError f) (y.mapError f) := by
  cases h with
  | ok hab => exact .ok hab
  | error e => exact .error (f e)

theorem refl (x : Except ε α) : SameOutcome (· = ·) x x := by
  cases x with
  | error e => exact .error e
  | ok a => exact .ok rfl

theorem eq {x y : Except ε α} (h : SameOutcome (· = ·) x y) : x = y := by
  cases h with
  | ok hab => rw [hab]
  | error e => rfl

theorem bind {x : Except ε α} {y : Except ε β} (h : SameOutcome r x y) {f : α → Except ε γ}
    {g : β → Except ε δ} (hfg : ∀ a b, r a b → SameOutcome s (f a) (g b)) :
    SameOutcome s (x.bind f) (y.bind g) := by
  cases h with
  | ok hab => exact hfg _ _ hab
  | error e => exact .error e

theorem mapM {xs : List α} {ys : List β} (h : List.Forall₂ r xs ys) {f : α → Except ε γ}
    {g : β → Except ε δ} (hfg : ∀ x y, r x y → SameOutcome s (f x) (g y)) :
    SameOutcome (List.Forall₂ s) (xs.mapM f) (ys.mapM g) := by
  induction h with
  | nil => exact .ok .nil
  | @cons x y xs ys hxy _ ih =>
      have hfirst := hfg x y hxy
      rw [List.mapM_cons, List.mapM_cons]
      generalize f x = fx, g y = gy at hfirst
      generalize xs.mapM f = fxs, ys.mapM g = gys at ih
      cases hfirst with
      | error e => exact .error e
      | ok hz =>
          cases ih with
          | error e => exact .error e
          | ok hzs => exact .ok (.cons hz hzs)

/-- A fold fails where a run over the list does, if each of its steps does, and then it has done all
that its steps do one by one. -/
theorem foldlM_mapM {σ : Type} {holds : σ → Prop} {done : σ → α → Prop} {f : σ → α → Except ε σ}
    {g : α → Except ε β}
    (hstep : ∀ state x, holds state → SameOutcome (fun later _ =>
      holds later ∧ (∀ y, done state y → done later y) ∧ done later x) (f state x) (g x))
    (list : List α) {state : σ} (hstate : holds state) :
    SameOutcome (fun later _ => holds later ∧ (∀ y, done state y → done later y) ∧
      ∀ x ∈ list, done later x) (list.foldlM f state) (list.mapM g) := by
  induction list generalizing state with
  | nil => exact .ok ⟨hstate, fun _ hdone => hdone, by simp⟩
  | cons x list ih =>
      have hfirst := hstep state x hstate
      rw [List.foldlM_cons, List.mapM_cons]
      generalize f state x = fx, g x = gx at hfirst
      cases hfirst with
      | error e => exact .error e
      | @ok later result h =>
          obtain ⟨hlater, hkept, hx⟩ := h
          have hrest := ih hlater
          change SameOutcome _ (list.foldlM f later)
            ((list.mapM g).bind fun results => .ok (result :: results))
          generalize list.foldlM f later = last, list.mapM g = results at hrest
          cases hrest with
          | error e => exact .error e
          | ok h =>
              obtain ⟨hlast, hkept', hall⟩ := h
              refine .ok ⟨hlast, fun y hy => hkept' y (hkept y hy), ?_⟩
              intro y hy
              rcases List.mem_cons.mp hy with rfl | hy
              · exact hkept' y hx
              · exact hall y hy

end SameOutcome

end SchemaDesign
