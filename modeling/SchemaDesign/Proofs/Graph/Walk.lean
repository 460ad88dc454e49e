import SchemaDesign.Graph.Walk
import Mathlib.Data.List.Chain

/-!
# How walks end

A walk ends at an element without a next one exactly when it meets neither the elements passed
before nor a cycle.  A walk that repeats has passed different elements, each led to by the one
before it.  In either case the walk stops as soon as nothing follows or an element comes back, and
so it takes at most one step from each element that has a next one.
-/

open Relation

namespace SchemaDesign.Steps

variable {α : Type} {steps : Steps α}

/-- The step leads from one element to the other. -/
def Leads (steps : Steps α) (x y : α) : Prop :=
  steps.next x = some y

theorem reflTransGen_iff_of_leads {x y z : α} (h : steps.Leads x y) :
    ReflTransGen steps.Leads x z ↔ z = x ∨ ReflTransGen steps.Leads y z := by
  constructor
  · intro hxz
    rcases ReflTransGen.cases_head hxz with heq | ⟨w, hw, hwz⟩
    · exact .inl heq.symm
    · obtain rfl : y = w := Option.some.inj (h.symm.trans hw)
      exact .inr hwz
  · rintro (rfl | hyz)
    · exact .refl
    · exact .head h hyz

/-- What the steps lead to after a number of them. -/
def after (steps : Steps α) : Nat → α → Option α
  | 0, x => some x
  | n + 1, x => (steps.next x).bind (steps.after n)

theorem after_succ_of_leads {x y : α} (h : steps.Leads x y) (n : Nat) :
    steps.after (n + 1) x = steps.after n y := by
  have hnext : steps.next x = some y := h
  rw [after, hnext, Option.bind_some]

/-- After this number of steps a walk that must not meet the elements of a path has to stop: nothing
follows, or an element comes back. -/
def StopsAt (steps : Steps α) (path : List α) (start : α) (n : Nat) : Prop :=
  match steps.after n start with
  | none => True
  | some x => x ∈ path ∨ ∃ m < n, steps.after m start = some x

theorem stopsAt_zero_iff (path : List α) (start : α) :
    steps.StopsAt path start 0 ↔ start ∈ path := by
  simp [StopsAt, after]

theorem stopsAt_succ_iff {path : List α} {start following : α} (h : steps.Leads start following)
    (n : Nat) : steps.StopsAt path start (n + 1) ↔ steps.StopsAt (start :: path) following n := by
  unfold StopsAt
  rw [after_succ_of_leads h]
  cases steps.after n following with
  | none => exact Iff.rfl
  | some x =>
      constructor
      · rintro (hpath | ⟨m, hm, hx⟩)
        · exact .inl (List.mem_cons_of_mem _ hpath)
        · cases m with
          | zero =>
              obtain rfl : start = x := Option.some.inj hx
              exact .inl List.mem_cons_self
          | succ m =>
              rw [after_succ_of_leads h] at hx
              exact .inr ⟨m, by omega, hx⟩
      · rintro (hpath | ⟨m, hm, hx⟩)
        · rcases List.mem_cons.mp hpath with rfl | hpath
          · exact .inr ⟨0, by omega, rfl⟩
          · exact .inl hpath
        · exact .inr ⟨m + 1, by omega, by rw [after_succ_of_leads h, hx]⟩

theorem transGen_iff_of_leads {x y z : α} (h : steps.Leads x y) :
    TransGen steps.Leads x z ↔ ReflTransGen steps.Leads y z := by
  rw [TransGen.head'_iff]
  constructor
  · rintro ⟨w, hw, hwz⟩
    obtain rfl : y = w := Option.some.inj (h.symm.trans hw)
    exact hwz
  · intro hyz
    exact ⟨y, h, hyz⟩

theorem eq_of_reflTransGen {x z : α} (hnone : steps.next x = none)
    (hxz : ReflTransGen steps.Leads x z) : z = x := by
  rcases ReflTransGen.cases_head hxz with heq | ⟨w, hw, _⟩
  · exact heq.symm
  · exact absurd (hnone.symm.trans hw) (by simp)

variable [DecidableEq α]

theorem walk_of_mem {path : List α} {current : α} (h : current ∈ path) :
    steps.walk path current = .repeats path current := by
  rw [walk, dif_pos h]

theorem walk_of_none {path : List α} {current : α} (hnew : current ∉ path)
    (hnone : steps.next current = none) : steps.walk path current = .ends path current := by
  rw [walk, dif_neg hnew]
  split
  · rfl
  · next h => exact absurd (hnone.symm.trans h) (by simp)

theorem walk_of_leads {path : List α} {current following : α} (hnew : current ∉ path)
    (h : steps.Leads current following) :
    steps.walk path current = steps.walk (current :: path) following := by
  rw [walk, dif_neg hnew]
  split
  · next hnone => exact absurd (hnone.symm.trans h) (by simp)
  · next other hother =>
      obtain rfl : following = other := Option.some.inj (h.symm.trans hother)
      rfl

/-- The recursion of the walk as an induction principle. -/
theorem walk_induction (steps : Steps α) {motive : List α → α → Prop}
    (mem : ∀ path current, current ∈ path → motive path current)
    (none : ∀ path current, current ∉ path → steps.next current = none → motive path current)
    (leads : ∀ path current following, current ∉ path → steps.Leads current following →
      motive (current :: path) following → motive path current)
    (path : List α) (current : α) : motive path current := by
  induction path, current using walk.induct steps with
  | case1 path current hmem => exact mem path current hmem
  | case2 path current hnew hnone => exact none path current hnew hnone
  | case3 path current hnew following h ih => exact leads path current following hnew h ih

theorem walk_isFinite_iff (steps : Steps α) (path : List α) (current : α) :
    (steps.walk path current).isFinite ↔
      ∀ x, ReflTransGen steps.Leads current x → x ∉ path ∧ ¬TransGen steps.Leads x x := by
  induction path, current using walk_induction steps with
  | mem path current hmem =>
      rw [walk_of_mem hmem]
      simp only [Walk.isFinite, Bool.false_eq_true, false_iff]
      intro h
      exact (h current .refl).1 hmem
  | none path current hnew hnone =>
      rw [walk_of_none hnew hnone]
      simp only [Walk.isFinite, true_iff]
      intro x hx
      rw [eq_of_reflTransGen hnone hx]
      refine ⟨hnew, fun hcycle => ?_⟩
      rcases TransGen.head'_iff.mp hcycle with ⟨y, hy, _⟩
      exact absurd (hnone.symm.trans hy) (by simp)
  | leads path current following hnew h ih =>
      rw [walk_of_leads hnew h, ih]
      constructor
      · intro hall x hx
        rcases (reflTransGen_iff_of_leads h).mp hx with rfl | hx
        · refine ⟨hnew, fun hcycle => ?_⟩
          exact (hall x ((transGen_iff_of_leads h).mp hcycle)).1 (by simp)
        · rcases hall x hx with ⟨hx, hcycle⟩
          exact ⟨fun hmem => hx (List.mem_cons_of_mem _ hmem), hcycle⟩
      · intro hall x hx
        rcases hall x ((reflTransGen_iff_of_leads h).mpr (.inr hx)) with ⟨hpath, hcycle⟩
        refine ⟨fun hmem => ?_, hcycle⟩
        rcases List.mem_cons.mp hmem with rfl | hmem
        · exact hcycle ((transGen_iff_of_leads h).mpr hx)
        · exact hpath hmem

/-- A walk stops as soon as it has to, and takes at most one step from each source.  It is finite
when it stops because nothing follows. -/
theorem walk_stops (steps : Steps α) {sources : List α}
    (hsources : ∀ x y, steps.Leads x y → x ∈ sources) (path : List α) (current : α) :
    ∃ n ≤ (sources.filter (· ∉ path)).length + 1,
      steps.StopsAt path current n ∧ (∀ m < n, ¬steps.StopsAt path current m) ∧
        ((steps.walk path current).isFinite ↔ steps.after n current = none) := by
  induction path, current using walk_induction steps with
  | mem path current hmem =>
      refine ⟨0, Nat.zero_le _, (stopsAt_zero_iff path current).mpr hmem, by omega, ?_⟩
      simp [walk_of_mem hmem, Walk.isFinite, after]
  | none path current hnew hnone =>
      have hend : steps.after 1 current = none := by simp [after, hnone]
      refine ⟨1, by omega, by simp [StopsAt, hend], ?_, ?_⟩
      · intro m hm hstop
        obtain rfl : m = 0 := by omega
        exact hnew ((stopsAt_zero_iff path current).mp hstop)
      · simp [walk_of_none hnew hnone, Walk.isFinite, hend]
  | leads path current following hnew h ih =>
      obtain ⟨n, hn, hstop, hearlier, hfinite⟩ := ih
      have hfewer := length_unpassed_lt (hsources current following h) hnew
      refine ⟨n + 1, by omega, (stopsAt_succ_iff h n).mpr hstop, ?_, ?_⟩
      · intro m hm hstop
        cases m with
        | zero => exact hnew ((stopsAt_zero_iff path current).mp hstop)
        | succ m => exact hearlier m (by omega) ((stopsAt_succ_iff h m).mp hstop)
      · rw [walk_of_leads hnew h, after_succ_of_leads h]
        exact hfinite

/-- A walk that ends takes the same way when fewer elements count as passed before. -/
theorem walk_ends_of_append (steps : Steps α) (passed path : List α) (current : α)
    {way : List α} {last : α} (h : steps.walk (path ++ passed) current = .ends way last) :
    ∃ rest, way = rest ++ passed ∧ steps.walk path current = .ends rest last := by
  generalize hwhole : path ++ passed = whole at h
  induction whole, current using walk_induction steps generalizing path with
  | mem whole current hmem =>
      rw [walk_of_mem hmem] at h
      exact absurd h (by simp)
  | none whole current hnew hnone =>
      rw [walk_of_none hnew hnone] at h
      rcases Walk.ends.inj h with ⟨rfl, rfl⟩
      have hpath : current ∉ path := fun hmem => hnew (hwhole ▸ List.mem_append_left _ hmem)
      exact ⟨path, hwhole.symm, walk_of_none hpath hnone⟩
  | leads whole current following hnew hleads ih =>
      rw [walk_of_leads hnew hleads] at h
      have hpath : current ∉ path := fun hmem => hnew (hwhole ▸ List.mem_append_left _ hmem)
      rw [walk_of_leads hpath hleads]
      exact ih (current :: path) (by rw [← hwhole, List.cons_append]) h

theorem walk_repeats {path way : List α} {current again : α} (hnodup : path.Nodup)
    (hchain : (current :: path).IsChain (flip steps.Leads))
    (h : steps.walk path current = .repeats way again) :
    way.Nodup ∧ again ∈ way ∧ (again :: way).IsChain (flip steps.Leads) := by
  induction path, current using walk_induction steps with
  | mem path current hmem =>
      rw [walk_of_mem hmem] at h
      obtain ⟨rfl, rfl⟩ := Walk.repeats.inj h
      exact ⟨hnodup, hmem, hchain⟩
  | none path current hnew hnone =>
      rw [walk_of_none hnew hnone] at h
      exact absurd h (by simp)
  | leads path current following hnew hleads ih =>
      rw [walk_of_leads hnew hleads] at h
      exact ih (List.nodup_cons.mpr ⟨hnew, hnodup⟩) (hchain.cons_cons hleads) h

end SchemaDesign.Steps
