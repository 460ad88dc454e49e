import SchemaDesign.Proofs.Graph.Search
import Mathlib.Data.Finset.Card
import Mathlib.Data.Finset.Range

/-!
# Correctness of the component search

A visit keeps the invariant of the search and sets aside only nodes that it entered itself.  If its
node stays open, these nodes have low numbers no less than that of the node, which is what the node
above needs when it is left in its turn.  The depth that bounds the nesting of visits suffices
because every nested visit enters a node that was not visited before.

At the end the path is empty, so no node is open: the finished components hold every node once.
-/

open Relation

namespace SchemaDesign.Graph

/-- Follows one edge of a node, with a way to explore what is not visited yet. -/
def follow (explore : Search → Nat → Search) (node : Nat) (search : Search) (successor : Nat) :
    Search :=
  (if (search.low successor).isSome then search else explore search successor).lowerTo node
    successor

theorem follow_of_visited {search : Search} {successor : Nat} (explore : Search → Nat → Search)
    {node : Nat} (hvisited : search.Visited successor) :
    follow explore node search successor = search.lowerTo node successor := by
  unfold Search.Visited at hvisited
  rw [follow, if_pos hvisited]

theorem follow_of_not_visited {search : Search} {successor : Nat}
    (explore : Search → Nat → Search) {node : Nat} (hnew : ¬search.Visited successor) :
    follow explore node search successor = (explore search successor).lowerTo node successor := by
  unfold Search.Visited at hnew
  rw [follow, if_neg hnew]

namespace Search

variable {size : Nat} {successors : Nat → List Nat} {search later : Search} {path : List Nat}
  {entry entry' : Nat → Nat} {node : Nat} {new : List Nat}

/-- The nodes below a size that are not visited yet. -/
def unvisited (size : Nat) (search : Search) : Finset Nat :=
  (Finset.range size).filter fun a => search.low a = none

theorem mem_unvisited (search : Search) {a : Nat} :
    a ∈ search.unvisited size ↔ a < size ∧ ¬search.Visited a := by
  simp [unvisited, Visited]

/-- One state of the search comes after another one.  What was visited keeps its numbers, and the
nodes set aside in between, the `new` ones, were entered in between. -/
structure Grown (search later : Search) (entry entry' : Nat → Nat) (new : List Nat) : Prop where
  visited_le : search.visited ≤ later.visited
  low_eq : ∀ a, search.Visited a → later.low a = search.low a
  entry_eq : ∀ a, search.Visited a → entry' a = entry a
  left_eq : later.left = new ++ search.left
  new_entry : ∀ a ∈ new, search.visited ≤ entry' a

namespace Grown

theorem refl (search : Search) (entry : Nat → Nat) : search.Grown search entry entry [] := by
  constructor <;> simp

theorem visited (hgrown : search.Grown later entry entry' new) {a : Nat}
    (ha : search.Visited a) : later.Visited a := by
  rw [Visited, hgrown.low_eq a ha]
  exact ha

theorem lowOf_eq (hgrown : search.Grown later entry entry' new) {a : Nat}
    (ha : search.Visited a) : later.lowOf a = search.lowOf a := by
  rw [lowOf, hgrown.low_eq a ha, lowOf]

theorem trans {latest : Search} {entry'' : Nat → Nat} {newer : List Nat}
    (hfirst : search.Grown later entry entry' new)
    (hsecond : later.Grown latest entry' entry'' newer)
    (hnew : ∀ a ∈ new, later.Visited a) :
    search.Grown latest entry entry'' (newer ++ new) where
  visited_le := hfirst.visited_le.trans hsecond.visited_le
  low_eq := fun a ha => (hsecond.low_eq a (hfirst.visited ha)).trans (hfirst.low_eq a ha)
  entry_eq := fun a ha => (hsecond.entry_eq a (hfirst.visited ha)).trans (hfirst.entry_eq a ha)
  left_eq := by rw [hsecond.left_eq, hfirst.left_eq, List.append_assoc]
  new_entry := by
    intro a ha
    rcases List.mem_append.mp ha with ha | ha
    · exact hfirst.visited_le.trans (hsecond.new_entry a ha)
    · rw [hsecond.entry_eq a (hnew a ha)]
      exact hfirst.new_entry a ha

theorem unvisited_subset (hgrown : search.Grown later entry entry' new) (size : Nat) :
    later.unvisited size ⊆ search.unvisited size := by
  intro a ha
  rw [mem_unvisited] at ha ⊢
  exact ⟨ha.1, fun hvisited => ha.2 (hgrown.visited hvisited)⟩

end Grown

theorem enter_grown (entry : Nat → Nat) (hnew : ¬search.Visited node) :
    search.Grown (search.enter node) entry (Function.update entry node search.visited) [] := by
  have hne : ∀ a, search.Visited a → a ≠ node := by
    rintro a ha rfl
    exact hnew ha
  constructor
  · simp
  · exact fun a ha => search.enter_low_of_ne (hne a ha)
  · exact fun a ha => Function.update_of_ne (hne a ha) _ _
  · rw [enter_left, List.nil_append]
  · simp

theorem card_unvisited_enter_lt (hnew : ¬search.Visited node) (hsize : node < size) :
    ((search.enter node).unvisited size).card < (search.unvisited size).card := by
  apply Finset.card_lt_card
  refine (Finset.ssubset_iff_of_subset ?_).mpr ⟨node, ?_, ?_⟩
  · exact (search.enter_grown (fun _ => 0) hnew).unvisited_subset size
  · exact (mem_unvisited search).mpr ⟨hsize, hnew⟩
  · rw [mem_unvisited, visited_enter_iff]
    simp

/-! ### Following the edges of a node -/

/-- A node was entered from a state of the search and the edges to the nodes of `done` have been
followed since. -/
structure Following (size : Nat) (successors : Nat → List Nat) (search : Search)
    (path : List Nat) (entry : Nat → Nat) (node : Nat) (done : List Nat) (later : Search)
    (entry' : Nat → Nat) (new : List Nat) : Prop where
  before : search.Invariant size successors path entry
  invariant : later.Invariant size successors (node :: path) entry'
  grown : search.Grown later entry entry' new
  entry_node : entry' node = search.visited
  followed : ∀ b ∈ done, later.Followed (node :: path) entry' node b
  low_new : ∀ a ∈ new, later.lowOf node ≤ later.lowOf a

/-- A node was visited.  If it is still open, none of the nodes set aside meanwhile has a lower
number than the node. -/
structure Explored (size : Nat) (successors : Nat → List Nat) (search : Search)
    (path : List Nat) (entry : Nat → Nat) (node : Nat) (later : Search) (entry' : Nat → Nat)
    (new : List Nat) : Prop where
  invariant : later.Invariant size successors path entry'
  grown : search.Grown later entry entry' new
  visited : later.Visited node
  low_new : ∀ a ∈ new, node ∈ new ∧ later.lowOf node ≤ later.lowOf a

/-- What a visit has to do for a node that is not visited yet. -/
def Explores (size : Nat) (successors : Nat → List Nat) (search : Search)
    (explore : Search → Nat → Search) : Prop :=
  ∀ path entry node, search.Invariant size successors path entry → ¬search.Visited node →
    node < size → (∀ p ∈ path, Reaches successors p node) →
    ∃ entry' new,
      search.Explored size successors path entry node (explore search node) entry' new

theorem Following.start (hinv : search.Invariant size successors path entry)
    (hnew : ¬search.Visited node) (hsize : node < size)
    (hpath : ∀ p ∈ path, Reaches successors p node) :
    search.Following size successors path entry node [] (search.enter node)
      (Function.update entry node search.visited) [] where
  before := hinv
  invariant := hinv.enter hnew hsize hpath
  grown := search.enter_grown entry hnew
  entry_node := by simp
  followed := by simp
  low_new := by simp

theorem Explored.of_visited {a : Nat} (hinv : search.Invariant size successors path entry)
    (ha : search.Visited a) : search.Explored size successors path entry a search entry [] where
  invariant := hinv
  grown := .refl search entry
  visited := ha
  low_new := by simp

variable {done : List Nat} {b : Nat}

/-- Exploring a successor and lowering the number of the node to that of the successor follows one
more edge. -/
theorem Following.lowerTo {latest : Search} {entry'' : Nat → Nat} {newer : List Nat}
    (hfollowing : search.Following size successors path entry node done later entry' new)
    (hnew : ¬search.Visited node) (hedge : b ∈ successors node)
    (hexplored : later.Explored size successors (node :: path) entry' b latest entry'' newer) :
    search.Following size successors path entry node (b :: done) (latest.lowerTo node b) entry''
      (newer ++ new) := by
  have hinv := hexplored.invariant
  have hnode : later.Visited node := hfollowing.invariant.visited_of_open (by simp)
  have hnode' : latest.Visited node := hexplored.grown.visited hnode
  have hnewVisited : ∀ a ∈ new, later.Visited a := fun a ha =>
    hfollowing.invariant.visited_of_open (by simp [hfollowing.grown.left_eq, ha])
  have hgrown := hfollowing.grown.trans hexplored.grown hnewVisited
  have hleft : ∀ a ∈ newer ++ new, a ∈ latest.left := by
    intro a ha
    rw [hgrown.left_eq]
    exact List.mem_append_left _ ha
  have hne : ∀ a ∈ newer ++ new, a ≠ node := by
    rintro a ha rfl
    exact (List.nodup_cons.mp hinv.nodup).1 (by simp [hleft a ha])
  have hlow := lowerTo_lowOf_self hnode' hexplored.visited
  constructor
  case before => exact hfollowing.before
  case invariant => exact hinv.lowerTo hedge hexplored.visited
  case grown =>
    refine ⟨?_, ?_, hgrown.entry_eq, ?_, hgrown.new_entry⟩
    · simpa using hgrown.visited_le
    · intro a ha
      rw [latest.lowerTo_low_of_ne b (by rintro rfl; exact hnew ha)]
      exact hgrown.low_eq a ha
    · simpa using hgrown.left_eq
  case entry_node =>
    rw [hexplored.grown.entry_eq node hnode, hfollowing.entry_node]
  case followed =>
    intro c hc
    apply hinv.followed_lowerTo hexplored.visited
    rcases List.mem_cons.mp hc with hcb | hc
    · exact .inl hcb
    · rcases hfollowing.followed c hc with ⟨hvisited, hopen⟩
      refine .inr ⟨hexplored.grown.visited hvisited, fun hmem => ?_⟩
      rw [hexplored.grown.lowOf_eq hnode, hexplored.grown.entry_eq c hvisited]
      apply hopen
      rw [hexplored.grown.left_eq] at hmem
      have hnotNewer : c ∉ newer := by
        intro hcnew
        have hle := hexplored.grown.new_entry c hcnew
        rw [hexplored.grown.entry_eq c hvisited] at hle
        exact absurd (hfollowing.invariant.entry_lt c hvisited) (Nat.not_lt.mpr hle)
      simp only [List.mem_append] at hmem ⊢
      tauto
  case low_new =>
    intro a ha
    rw [latest.lowerTo_lowOf_of_ne b (hne a ha), hlow]
    rcases List.mem_append.mp ha with ha | ha
    · rcases hexplored.low_new a ha with ⟨hb, hle⟩
      have hopen := (hinv.mem_open_iff b).mp (by simp [hleft b (by simp [hb])])
      rw [if_neg hopen.2]
      exact (Nat.min_le_right _ _).trans hle
    · have hle := hfollowing.low_new a ha
      rw [← hexplored.grown.lowOf_eq hnode,
        ← hexplored.grown.lowOf_eq (hnewVisited a ha)] at hle
      split
      · exact hle
      · exact (Nat.min_le_left _ _).trans hle

theorem Following.earlier
    (hfollowing : search.Following size successors path entry node done later entry' new) :
    ∀ a ∈ path ++ search.left, entry' a < entry' node := by
  intro a ha
  have hvisited := hfollowing.before.visited_of_open ha
  rw [hfollowing.grown.entry_eq a hvisited, hfollowing.entry_node]
  exact hfollowing.before.entry_lt a hvisited

theorem Following.path_reaches_node
    (hfollowing : search.Following size successors path entry node done later entry' new) :
    ∀ p ∈ node :: path, Reaches successors p node := by
  intro p hp
  apply hfollowing.invariant.path_reaches p hp node (by simp)
  rcases List.mem_cons.mp hp with hpnode | hp
  · rw [hpnode]
  · exact (hfollowing.earlier p (List.mem_append_left _ hp)).le

theorem Following.follow {explore : Search → Nat → Search}
    (hfollowing : search.Following size successors path entry node done later entry' new)
    (hnew : ¬search.Visited node) (hedge : b ∈ successors node) (hsize : b < size)
    (hexplore : later.Explores size successors explore) :
    ∃ entry'' newer, search.Following size successors path entry node (b :: done)
      (Graph.follow explore node later b) entry'' newer := by
  by_cases hb : later.Visited b
  · have hexplored := Explored.of_visited hfollowing.invariant hb
    rw [follow_of_visited explore hb]
    exact ⟨_, _, hfollowing.lowerTo hnew hedge hexplored⟩
  · obtain ⟨entry'', newer, hexplored⟩ :=
      hexplore (node :: path) entry' b hfollowing.invariant hb hsize
        fun p hp => (hfollowing.path_reaches_node p hp).tail hedge
    rw [follow_of_not_visited explore hb]
    exact ⟨_, _, hfollowing.lowerTo hnew hedge hexplored⟩

/-- Following a whole list of successors. -/
theorem Following.foldl {explore : Search → Nat → Search} {todo : List Nat}
    (hfollowing : search.Following size successors path entry node done later entry' new)
    (hnew : ¬search.Visited node) (hedge : ∀ b ∈ todo, b ∈ successors node)
    (hsize : ∀ b ∈ todo, b < size)
    (hexplore : ∀ latest : Search,
      latest.unvisited size ⊆ (search.enter node).unvisited size →
      latest.Explores size successors explore) :
    ∃ entry'' newer, search.Following size successors path entry node (todo.reverse ++ done)
      (todo.foldl (Graph.follow explore node) later) entry'' newer := by
  induction todo generalizing done later entry' new with
  | nil => exact ⟨entry', new, hfollowing⟩
  | cons b todo ih =>
      have hunvisited : later.unvisited size ⊆ (search.enter node).unvisited size := by
        intro a ha
        rw [mem_unvisited] at ha ⊢
        refine ⟨ha.1, fun hvisited => ha.2 ?_⟩
        rcases (search.visited_enter_iff node a).mp hvisited with hane | hvisited
        · rw [hane]
          exact hfollowing.invariant.visited_of_open (by simp)
        · exact hfollowing.grown.visited hvisited
      obtain ⟨_, _, hnext⟩ := hfollowing.follow hnew (hedge b (by simp)) (hsize b (by simp))
        (hexplore later hunvisited)
      obtain ⟨entry'', newer, hlast⟩ := ih hnext
        (fun c hc => hedge c (List.mem_cons_of_mem _ hc))
        (fun c hc => hsize c (List.mem_cons_of_mem _ hc))
      refine ⟨entry'', newer, ?_⟩
      simpa using hlast

/-! ### Visits -/

/-- When all edges of the node are followed it can be left. -/
theorem Following.leave
    (hfollowing : search.Following size successors path entry node (successors node).reverse later
      entry' new) :
    ∃ newer, search.Explored size successors path entry node (later.leave node search.visited)
      entry' newer := by
  have hinv := hfollowing.invariant
  have hnode : later.Visited node := hinv.visited_of_open (by simp)
  have hfollowed : ∀ b ∈ successors node, later.Followed (node :: path) entry' node b :=
    fun b hb => hfollowing.followed b (List.mem_reverse.mpr hb)
  have hgrown := hfollowing.grown
  have hentry := hfollowing.entry_node
  have hle := hinv.low_le_entry node hnode
  by_cases hlow : later.lowOf node = entry' node
  · have hrooted : later.Rooted successors path entry' node new search.left :=
      { left_eq := hgrown.left_eq
        low_eq := hlow
        low_new := fun a ha => hlow ▸ hfollowing.low_new a ha
        earlier := hfollowing.earlier
        followed := hfollowed }
    rw [← hentry, leave_of_rooted hinv hrooted]
    refine ⟨[], hinv.close hrooted, ?_, hnode, by simp⟩
    exact ⟨hgrown.visited_le, hgrown.low_eq, hgrown.entry_eq, rfl, by simp⟩
  · rw [leave_of_lowered hnode (hentry ▸ hlow)]
    refine ⟨node :: new, hinv.setAside (lt_of_le_of_ne hle hlow) hfollowed, ?_, hnode, ?_⟩
    · refine ⟨hgrown.visited_le, hgrown.low_eq, hgrown.entry_eq, ?_, ?_⟩
      · simp [hgrown.left_eq]
      · intro a ha
        rcases List.mem_cons.mp ha with hane | ha
        · rw [hane, hentry]
        · exact hgrown.new_entry a ha
    · intro a ha
      refine ⟨by simp, ?_⟩
      rcases List.mem_cons.mp ha with hane | ha
      · rw [hane]
      · exact hfollowing.low_new a ha

/-- The induction is on the depth, which is no less than the number of nodes not visited yet. -/
theorem explores_visit (hsize : ∀ a, ∀ b ∈ successors a, b < size) :
    ∀ depth (search : Search), (search.unvisited size).card ≤ depth →
      search.Explores size successors (visit successors depth) := by
  intro depth
  induction depth with
  | zero =>
      intro search hcard path entry node _ hnew hnode _
      have hempty := Finset.card_eq_zero.mp (Nat.le_zero.mp hcard)
      have hmem := (mem_unvisited search).mpr ⟨hnode, hnew⟩
      rw [hempty] at hmem
      exact absurd hmem (Finset.notMem_empty node)
  | succ depth ih =>
      intro search hcard path entry node hinv hnew hnode hpath
      have hlt := card_unvisited_enter_lt hnew hnode
      have hexplore : ∀ latest : Search,
          latest.unvisited size ⊆ (search.enter node).unvisited size →
          latest.Explores size successors (visit successors depth) := by
        intro latest hsubset
        have hle := Finset.card_le_card hsubset
        exact ih latest (by omega)
      have hstart := Following.start hinv hnew hnode hpath
      rcases hstart.foldl hnew (fun b hb => hb) (hsize node) hexplore with ⟨entry', new, hfollowing⟩
      rw [List.append_nil] at hfollowing
      rcases hfollowing.leave with ⟨newer, hexplored⟩
      exact ⟨entry', newer, hexplored⟩

end Search

/-! ### The components -/

/-- Lists that hold every node once, each of them a component. -/
structure AreComponents (size : Nat) (successors : Nat → List Nat) (lists : List (List Nat)) :
    Prop where
  nodup : lists.flatten.Nodup
  mem_iff : ∀ a, a ∈ lists.flatten ↔ a < size
  component : ∀ nodes ∈ lists, IsComponent successors nodes

variable {size : Nat} {successors : Nat → List Nat}

/-- A node of a component lies on a cycle if it is its own successor or not alone. -/
theorem IsComponent.transGen_self_iff {nodes : List Nat} (hnodes : IsComponent successors nodes)
    {a : Nat} (ha : a ∈ nodes) :
    TransGen (Edge successors) a a ↔ Edge successors a a ∨ ∃ b ∈ nodes, b ≠ a := by
  constructor
  · intro h
    rcases TransGen.head'_iff.mp h with ⟨b, hedge, hback⟩
    by_cases hba : b = a
    · exact .inl (hba ▸ hedge)
    · exact .inr ⟨b, (hnodes.mem_iff a ha b).mpr ⟨.single hedge, hback⟩, hba⟩
  · rintro (hedge | ⟨b, hb, hba⟩)
    · exact .single hedge
    · rcases (hnodes.mem_iff a ha b).mp hb with ⟨hab, hback⟩
      rcases reflTransGen_iff_eq_or_transGen.mp hab with heq | hab
      · exact absurd heq hba
      · exact hab.trans_left hback

/-- One round of the outermost loop. -/
def visitNew (successors : Nat → List Nat) (size : Nat) (search : Search) (node : Nat) : Search :=
  if (search.low node).isSome then search else visit successors size search node

theorem components_eq (size : Nat) (successors : Nat → List Nat) :
    components size successors =
      ((List.range size).foldl (visitNew successors size) .start).finished.reverse := rfl

/-- Between the rounds no node is on the path. -/
theorem explored_visitNew (hsize : ∀ a, ∀ b ∈ successors a, b < size) {search : Search}
    {entry : Nat → Nat} (hinv : search.Invariant size successors [] entry) {node : Nat}
    (hnode : node < size) :
    ∃ entry' new,
      search.Explored size successors [] entry node (visitNew successors size search node)
        entry' new := by
  by_cases hvisited : search.Visited node
  · rw [visitNew, if_pos (by exact hvisited)]
    exact ⟨entry, [], .of_visited hinv hvisited⟩
  · rw [visitNew, if_neg (by exact hvisited)]
    have hcard : (search.unvisited size).card ≤ size := by
      calc
        (search.unvisited size).card ≤ (Finset.range size).card :=
          Finset.card_le_card (Finset.filter_subset _ _)
        _ = size := Finset.card_range size
    exact Search.explores_visit hsize size search hcard [] entry node hinv hvisited hnode (by simp)

theorem invariant_foldl_visitNew (hsize : ∀ a, ∀ b ∈ successors a, b < size) {nodes : List Nat}
    (hnodes : ∀ a ∈ nodes, a < size) {search : Search} {entry : Nat → Nat}
    (hinv : search.Invariant size successors [] entry) :
    ∃ entry',
      (nodes.foldl (visitNew successors size) search).Invariant size successors [] entry' ∧
        ∀ a, a ∈ nodes ∨ search.Visited a →
          (nodes.foldl (visitNew successors size) search).Visited a := by
  induction nodes generalizing search entry with
  | nil => exact ⟨entry, hinv, by simp⟩
  | cons node nodes ih =>
      rcases explored_visitNew hsize hinv (hnodes node (by simp)) with ⟨_, _, hexplored⟩
      rcases ih (fun a ha => hnodes a (List.mem_cons_of_mem _ ha)) hexplored.invariant with
        ⟨entry', hlast, hvisited⟩
      refine ⟨entry', hlast, fun a ha => hvisited a ?_⟩
      rcases ha with ha | ha
      · rcases List.mem_cons.mp ha with hane | ha
        · rw [hane]
          exact .inr hexplored.visited
        · exact .inl ha
      · exact .inr (hexplored.grown.visited ha)

theorem components_areComponents (hsize : ∀ a, ∀ b ∈ successors a, b < size) :
    AreComponents size successors (components size successors) := by
  have hnodes : ∀ a ∈ List.range size, a < size := fun a ha => List.mem_range.mp ha
  obtain ⟨entry, hinv, hvisited⟩ := invariant_foldl_visitNew hsize hnodes
    (Search.start_invariant size successors fun _ => 0)
  rw [components_eq]
  generalize (List.range size).foldl (visitNew successors size) .start = search at hinv hvisited
  have hleft : search.left = [] := by
    apply List.eq_nil_iff_forall_not_mem.mpr
    intro a ha
    rcases hinv.left_reaches_path (entry a) a ha le_rfl with ⟨p, hp, _⟩
    exact absurd hp (List.not_mem_nil)
  have hperm : search.finished.reverse.flatten.Perm search.finishedNodes :=
    (List.reverse_perm search.finished).flatten
  have hnodup := hinv.nodup
  have hiff := hinv.visited_iff
  rw [hleft] at hnodup hiff
  constructor
  case nodup => exact hperm.nodup_iff.mpr hnodup
  case mem_iff =>
    intro a
    rw [hperm.mem_iff]
    constructor
    · intro ha
      exact hinv.lt_size a ((hiff a).mpr ha)
    · intro ha
      exact (hiff a).mp (hvisited a (.inl (List.mem_range.mpr ha)))
  case component =>
    intro nodes hnodes
    exact hinv.component nodes (List.mem_reverse.mp hnodes)

end SchemaDesign.Graph
