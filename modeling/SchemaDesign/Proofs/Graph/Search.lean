import SchemaDesign.Graph.Components
import Mathlib.Logic.Relation
import Mathlib.Data.List.Nodup
import Mathlib.Order.Nat
import Mathlib.Tactic.Common

/-!
# The invariant of the component search

Three kinds of nodes are visited at any moment: those on the path from the first node of the search
to the one being followed, those that were left without being in a component yet, and those of the
finished components.  The first two kinds are open.

The search keeps only low numbers.  The proof also keeps the number at which a node was entered.
An open node reaches an open node whose entry number is its low number; a node that was left has a
low number below its entry number, so it reaches the path.  On the other hand no edge from a node
that was left leads to an open node with an entry number below the low number.  When a node is left
whose low number was never lowered, the nodes left since its entry are therefore all those of its
component.
-/

open Relation

namespace SchemaDesign.Graph

/-- One node has the other one among its successors. -/
def Edge (successors : Nat → List Nat) (a b : Nat) : Prop :=
  b ∈ successors a

/-- A walk along successors, possibly empty, leads from one node to the other. -/
abbrev Reaches (successors : Nat → List Nat) : Nat → Nat → Prop :=
  ReflTransGen (Edge successors)

/-- The nodes of a list are a node, all nodes that it reaches and that reach it. -/
structure IsComponent (successors : Nat → List Nat) (nodes : List Nat) : Prop where
  ne_nil : nodes ≠ []
  mem_iff : ∀ a ∈ nodes, ∀ b,
    b ∈ nodes ↔ Reaches successors a b ∧ Reaches successors b a

theorem IsComponent.perm {successors : Nat → List Nat} {nodes others : List Nat}
    (hnodes : IsComponent successors nodes) (hperm : nodes.Perm others) :
    IsComponent successors others where
  ne_nil := fun hnil => hnodes.ne_nil (List.perm_nil.mp (hnil ▸ hperm))
  mem_iff := by
    intro a ha b
    rw [← hperm.mem_iff]
    exact hnodes.mem_iff a (hperm.mem_iff.mpr ha) b

namespace Search

def Visited (search : Search) (node : Nat) : Prop :=
  (search.low node).isSome

/-- The low number of a visited node. -/
def lowOf (search : Search) (node : Nat) : Nat :=
  (search.low node).getD 0

def finishedNodes (search : Search) : List Nat :=
  search.finished.flatten

theorem isFinished_iff (search : Search) (node : Nat) :
    search.isFinished node ↔ node ∈ search.finishedNodes := by
  simp [isFinished, finishedNodes]

theorem low_eq_lowOf {search : Search} {node : Nat} (hvisited : search.Visited node) :
    search.low node = some (search.lowOf node) := by
  rcases Option.isSome_iff_exists.mp hvisited with ⟨low, hlow⟩
  simp [lowOf, hlow]

/-! ### What the operations change -/

@[simp] theorem enter_visited (search : Search) (node : Nat) :
    (search.enter node).visited = search.visited + 1 := rfl

theorem enter_left (search : Search) (node : Nat) :
    (search.enter node).left = search.left := rfl

theorem enter_finishedNodes (search : Search) (node : Nat) :
    (search.enter node).finishedNodes = search.finishedNodes := rfl

theorem enter_lowOf_self (search : Search) (node : Nat) :
    (search.enter node).lowOf node = search.visited := by
  simp [lowOf, enter, setLow]

theorem enter_low_of_ne (search : Search) {node other : Nat} (hne : other ≠ node) :
    (search.enter node).low other = search.low other := by
  simp [enter, setLow, hne]

theorem visited_enter_iff (search : Search) (node other : Nat) :
    (search.enter node).Visited other ↔ other = node ∨ search.Visited other := by
  by_cases hother : other = node
  · simp [Visited, enter, setLow, hother]
  · simp [Visited, enter_low_of_ne search hother, hother]

theorem lowerTo_eq (search : Search) (node successor : Nat) :
    search.lowerTo node successor = search ∨
      ∃ low, search.lowerTo node successor = search.setLow node low := by
  unfold lowerTo
  split
  · split
    · exact .inr ⟨_, rfl⟩
    · exact .inl rfl
  · exact .inl rfl

@[simp] theorem lowerTo_visited (search : Search) (node successor : Nat) :
    (search.lowerTo node successor).visited = search.visited := by
  rcases search.lowerTo_eq node successor with h | ⟨low, h⟩ <;> simp [h, setLow]

@[simp] theorem lowerTo_left (search : Search) (node successor : Nat) :
    (search.lowerTo node successor).left = search.left := by
  rcases search.lowerTo_eq node successor with h | ⟨low, h⟩ <;> simp [h, setLow]

theorem lowerTo_finished (search : Search) (node successor : Nat) :
    (search.lowerTo node successor).finished = search.finished := by
  rcases search.lowerTo_eq node successor with h | ⟨low, h⟩ <;> simp [h, setLow]

theorem lowerTo_finishedNodes (search : Search) (node successor : Nat) :
    (search.lowerTo node successor).finishedNodes = search.finishedNodes := by
  rw [finishedNodes, lowerTo_finished, finishedNodes]

theorem lowerTo_low_of_ne (search : Search) {node other : Nat} (successor : Nat)
    (hne : other ≠ node) :
    (search.lowerTo node successor).low other = search.low other := by
  rcases search.lowerTo_eq node successor with h | ⟨low, h⟩ <;> simp [h, setLow, hne]

theorem lowerTo_lowOf_of_ne (search : Search) {node other : Nat} (successor : Nat)
    (hne : other ≠ node) :
    (search.lowerTo node successor).lowOf other = search.lowOf other := by
  simp [lowOf, search.lowerTo_low_of_ne successor hne]

/-- The low number becomes the lesser of the two if the successor is open. -/
theorem lowerTo_lowOf_self {search : Search} {node successor : Nat}
    (hnode : search.Visited node) (hsuccessor : search.Visited successor) :
    (search.lowerTo node successor).lowOf node =
      if successor ∈ search.finishedNodes then search.lowOf node
      else min (search.lowOf node) (search.lowOf successor) := by
  have hfinished := search.isFinished_iff successor
  simp only [lowerTo, low_eq_lowOf hnode, low_eq_lowOf hsuccessor]
  by_cases hmem : successor ∈ search.finishedNodes
  · simp [hmem, hfinished.mpr hmem]
  · have hopen : search.isFinished successor = false := by
      simpa [hmem] using hfinished
    by_cases hlt : search.lowOf successor < search.lowOf node
    · have hset : (search.setLow node (search.lowOf successor)).lowOf node =
          search.lowOf successor := by
        simp [setLow, lowOf]
      simp [hmem, hopen, hlt, hset, Nat.min_eq_right (Nat.le_of_lt hlt)]
    · simp [hmem, hopen, hlt, Nat.min_eq_left (Nat.not_lt.mp hlt)]

theorem visited_lowerTo_iff (search : Search) {node : Nat} (successor : Nat)
    (hnode : search.Visited node) (other : Nat) :
    (search.lowerTo node successor).Visited other ↔ search.Visited other := by
  by_cases hother : other = node
  · subst other
    rcases search.lowerTo_eq node successor with h | ⟨low, h⟩
    · rw [h]
    · simp [h, Visited, setLow] at hnode ⊢
      exact hnode
  · simp [Visited, search.lowerTo_low_of_ne successor hother]

/-! ### The invariant -/

variable {size : Nat} {successors : Nat → List Nat} {search : Search} {path : List Nat}
  {entry : Nat → Nat} {node : Nat}

/-- The search has taken notice of an edge: it leads to a visited node, and to none that is open
and was entered before the low number. -/
def Followed (search : Search) (path : List Nat) (entry : Nat → Nat) (a b : Nat) : Prop :=
  search.Visited b ∧ (b ∈ path ++ search.left → search.lowOf a ≤ entry b)

/-- The path is listed from the node being followed down to the first one.  An entry number is the
count of the nodes visited before. -/
structure Invariant (size : Nat) (successors : Nat → List Nat) (search : Search)
    (path : List Nat) (entry : Nat → Nat) : Prop where
  lt_size : ∀ a, search.Visited a → a < size
  visited_iff : ∀ a, search.Visited a ↔ a ∈ path ++ search.left ++ search.finishedNodes
  nodup : (path ++ search.left ++ search.finishedNodes).Nodup
  entry_lt : ∀ a, search.Visited a → entry a < search.visited
  entry_injective : ∀ a b, search.Visited a → search.Visited b → entry a = entry b → a = b
  low_le_entry : ∀ a, search.Visited a → search.lowOf a ≤ entry a
  left_low_lt : ∀ a ∈ search.left, search.lowOf a < entry a
  /-- The low number of an open node is the entry number of an open node that it reaches. -/
  low_attained : ∀ a ∈ path ++ search.left, ∃ b ∈ path ++ search.left,
    entry b = search.lowOf a ∧ Reaches successors a b
  /-- A node on the path reaches all open nodes entered after it. -/
  path_reaches : ∀ p ∈ path, ∀ a ∈ path ++ search.left, entry p ≤ entry a →
    Reaches successors p a
  left_edge : ∀ a ∈ search.left, ∀ b ∈ successors a, search.Followed path entry a b
  finished_edge : ∀ a ∈ search.finishedNodes, ∀ b ∈ successors a, b ∈ search.finishedNodes
  component : ∀ nodes ∈ search.finished, IsComponent successors nodes

/-- The first node of the path can be left, and its low number was never lowered.  The nodes left
since its entry are `new`, those left before are `rest`. -/
structure Rooted (successors : Nat → List Nat) (search : Search) (path : List Nat)
    (entry : Nat → Nat) (node : Nat) (new rest : List Nat) : Prop where
  left_eq : search.left = new ++ rest
  low_eq : search.lowOf node = entry node
  low_new : ∀ a ∈ new, entry node ≤ search.lowOf a
  earlier : ∀ a ∈ path ++ rest, entry a < entry node
  followed : ∀ b ∈ successors node, search.Followed (node :: path) entry node b

theorem start_invariant (size : Nat) (successors : Nat → List Nat) (entry : Nat → Nat) :
    start.Invariant size successors [] entry := by
  constructor <;> simp [start, Visited, finishedNodes]

namespace Invariant

theorem mem_open_iff (hinv : search.Invariant size successors path entry) (a : Nat) :
    a ∈ path ++ search.left ↔ search.Visited a ∧ a ∉ search.finishedNodes := by
  have hdisjoint := (List.nodup_append.mp hinv.nodup).2.2
  constructor
  · intro ha
    refine ⟨(hinv.visited_iff a).mpr (List.mem_append_left _ ha), ?_⟩
    intro hfinished
    exact hdisjoint a ha a hfinished rfl
  · rintro ⟨hvisited, hfinished⟩
    rcases List.mem_append.mp ((hinv.visited_iff a).mp hvisited) with ha | ha
    · exact ha
    · exact absurd ha hfinished

theorem visited_of_open (hinv : search.Invariant size successors path entry) {a : Nat}
    (ha : a ∈ path ++ search.left) : search.Visited a :=
  ((hinv.mem_open_iff a).mp ha).1

/-- The low numbers lead from a node that was left to earlier and earlier nodes, until one of them
is on the path. -/
theorem left_reaches_path (hinv : search.Invariant size successors path entry) :
    ∀ bound, ∀ a ∈ search.left, entry a ≤ bound → ∃ p ∈ path, Reaches successors a p := by
  intro bound
  induction bound with
  | zero =>
      intro a ha hbound
      have hlow := hinv.left_low_lt a ha
      omega
  | succ bound ih =>
      intro a ha hbound
      have hlow := hinv.left_low_lt a ha
      rcases hinv.low_attained a (List.mem_append_right _ ha) with ⟨b, hb, hentry, hreach⟩
      rcases List.mem_append.mp hb with hpath | hleft
      · exact ⟨b, hpath, hreach⟩
      · rcases ih b hleft (by omega) with ⟨p, hp, hbp⟩
        exact ⟨p, hp, hreach.trans hbp⟩

theorem enter (hinv : search.Invariant size successors path entry)
    (hnew : ¬search.Visited node) (hsize : node < size)
    (hpath : ∀ p ∈ path, Reaches successors p node) :
    (search.enter node).Invariant size successors (node :: path)
      (Function.update entry node search.visited) := by
  have hne : ∀ a, search.Visited a → a ≠ node := by
    rintro a ha rfl
    exact hnew ha
  have hopen : ∀ a ∈ path ++ search.left, a ≠ node :=
    fun a ha => hne a (hinv.visited_of_open ha)
  have hentry : ∀ a, search.Visited a →
      Function.update entry node search.visited a = entry a :=
    fun a ha => Function.update_of_ne (hne a ha) _ _
  have hlow : ∀ a, search.Visited a → (search.enter node).lowOf a = search.lowOf a :=
    fun a ha => by simp [lowOf, search.enter_low_of_ne (hne a ha)]
  constructor
  case lt_size =>
    intro a ha
    rcases (search.visited_enter_iff node a).mp ha with rfl | ha
    · exact hsize
    · exact hinv.lt_size a ha
  case visited_iff =>
    intro a
    rw [search.visited_enter_iff, hinv.visited_iff, enter_left, enter_finishedNodes]
    simp
  case nodup =>
    have hnode : node ∉ path ++ search.left ++ search.finishedNodes :=
      fun hmem => hnew ((hinv.visited_iff node).mpr hmem)
    exact List.nodup_cons.mpr ⟨hnode, hinv.nodup⟩
  case entry_lt =>
    intro a ha
    rcases (search.visited_enter_iff node a).mp ha with rfl | ha
    · simp
    · rw [hentry a ha, enter_visited]
      exact Nat.lt_succ_of_lt (hinv.entry_lt a ha)
  case entry_injective =>
    intro a b ha hb hab
    rcases (search.visited_enter_iff node a).mp ha with hanode | ha <;>
      rcases (search.visited_enter_iff node b).mp hb with hbnode | hb
    · rw [hanode, hbnode]
    · rw [hanode, Function.update_self, hentry b hb] at hab
      exact absurd hab (Nat.ne_of_gt (hinv.entry_lt b hb))
    · rw [hbnode, Function.update_self, hentry a ha] at hab
      exact absurd hab (Nat.ne_of_lt (hinv.entry_lt a ha))
    · rw [hentry a ha, hentry b hb] at hab
      exact hinv.entry_injective a b ha hb hab
  case low_le_entry =>
    intro a ha
    rcases (search.visited_enter_iff node a).mp ha with rfl | ha
    · rw [enter_lowOf_self, Function.update_self]
    · rw [hentry a ha, hlow a ha]
      exact hinv.low_le_entry a ha
  case left_low_lt =>
    intro a ha
    have hvisited := hinv.visited_of_open (List.mem_append_right _ ha)
    rw [hentry a hvisited, hlow a hvisited]
    exact hinv.left_low_lt a ha
  case low_attained =>
    intro a ha
    rcases List.mem_cons.mp ha with rfl | ha
    · exact ⟨a, by simp, by rw [enter_lowOf_self, Function.update_self], .refl⟩
    · rcases hinv.low_attained a ha with ⟨b, hb, hab, hreach⟩
      refine ⟨b, List.mem_cons_of_mem _ hb, ?_, hreach⟩
      rw [hentry b (hinv.visited_of_open hb), hlow a (hinv.visited_of_open ha), hab]
  case path_reaches =>
    intro p hp a ha hle
    rcases List.mem_cons.mp hp with hpnode | hp <;>
      rcases List.mem_cons.mp ha with hanode | ha
    · rw [hpnode, hanode]
    · have hvisited := hinv.visited_of_open ha
      rw [hpnode, Function.update_self, hentry a hvisited] at hle
      exact absurd (hinv.entry_lt a hvisited) (Nat.not_lt.mpr hle)
    · rw [hanode]
      exact hpath p hp
    · have hvisited := hinv.visited_of_open (List.mem_append_left search.left hp)
      rw [hentry p hvisited, hentry a (hinv.visited_of_open ha)] at hle
      exact hinv.path_reaches p hp a ha hle
  case left_edge =>
    intro a ha b hb
    rcases hinv.left_edge a ha b hb with ⟨hvisited, hopen⟩
    refine ⟨(search.visited_enter_iff node b).mpr (.inr hvisited), ?_⟩
    intro hmem
    rw [hlow a (hinv.visited_of_open (List.mem_append_right _ ha)), hentry b hvisited]
    rcases List.mem_cons.mp hmem with rfl | hmem
    · exact absurd hvisited hnew
    · exact hopen hmem
  case finished_edge => exact hinv.finished_edge
  case component => exact hinv.component

theorem lowerTo {successor : Nat}
    (hinv : search.Invariant size successors (node :: path) entry)
    (hedge : successor ∈ successors node) (hsuccessor : search.Visited successor) :
    (search.lowerTo node successor).Invariant size successors (node :: path) entry := by
  have hmem : node ∈ (node :: path) ++ search.left := by simp
  have hnode := hinv.visited_of_open hmem
  have hleft : ∀ a ∈ search.left, a ≠ node := by
    rintro a ha rfl
    exact (List.nodup_cons.mp hinv.nodup).1 (by simp [ha])
  have hlow := lowerTo_lowOf_self hnode hsuccessor
  have hle : (search.lowerTo node successor).lowOf node ≤ search.lowOf node := by
    rw [hlow]
    split
    · exact Nat.le_refl _
    · exact Nat.min_le_left _ _
  constructor
  case lt_size =>
    intro a ha
    exact hinv.lt_size a ((search.visited_lowerTo_iff successor hnode a).mp ha)
  case visited_iff =>
    intro a
    rw [search.visited_lowerTo_iff successor hnode a, hinv.visited_iff, lowerTo_left,
      lowerTo_finishedNodes]
  case nodup =>
    rw [lowerTo_left, lowerTo_finishedNodes]
    exact hinv.nodup
  case entry_lt =>
    intro a ha
    rw [lowerTo_visited]
    exact hinv.entry_lt a ((search.visited_lowerTo_iff successor hnode a).mp ha)
  case entry_injective =>
    intro a b ha hb
    exact hinv.entry_injective a b ((search.visited_lowerTo_iff successor hnode a).mp ha)
      ((search.visited_lowerTo_iff successor hnode b).mp hb)
  case low_le_entry =>
    intro a ha
    have hentry := hinv.low_le_entry a ((search.visited_lowerTo_iff successor hnode a).mp ha)
    by_cases hane : a = node
    · subst a
      exact Nat.le_trans hle hentry
    · rwa [search.lowerTo_lowOf_of_ne successor hane]
  case left_low_lt =>
    intro a ha
    rw [lowerTo_left] at ha
    rw [search.lowerTo_lowOf_of_ne successor (hleft a ha)]
    exact hinv.left_low_lt a ha
  case low_attained =>
    intro a ha
    rw [lowerTo_left] at ha ⊢
    by_cases hane : a = node
    · subst a
      rw [hlow]
      split
      case isTrue => exact hinv.low_attained node hmem
      case isFalse hfinished =>
        rcases Nat.le_total (search.lowOf node) (search.lowOf successor) with hmin | hmin
        · rw [Nat.min_eq_left hmin]
          exact hinv.low_attained node hmem
        · rw [Nat.min_eq_right hmin]
          have hopen := (hinv.mem_open_iff successor).mpr ⟨hsuccessor, hfinished⟩
          rcases hinv.low_attained successor hopen with ⟨b, hb, hentry, hreach⟩
          exact ⟨b, hb, hentry, .head hedge hreach⟩
    · rw [search.lowerTo_lowOf_of_ne successor hane]
      exact hinv.low_attained a ha
  case path_reaches =>
    intro p hp a ha
    rw [lowerTo_left] at ha
    exact hinv.path_reaches p hp a ha
  case left_edge =>
    intro a ha b hb
    rw [lowerTo_left] at ha
    rcases hinv.left_edge a ha b hb with ⟨hvisited, hopen⟩
    refine ⟨(search.visited_lowerTo_iff successor hnode b).mpr hvisited, ?_⟩
    rw [lowerTo_left, search.lowerTo_lowOf_of_ne successor (hleft a ha)]
    exact hopen
  case finished_edge =>
    rw [lowerTo_finishedNodes]
    exact hinv.finished_edge
  case component =>
    rw [lowerTo_finished]
    exact hinv.component

/-- After the low number is lowered to that of a successor, the edge to it is followed, and the
edges followed before remain so. -/
theorem followed_lowerTo {successor : Nat}
    (hinv : search.Invariant size successors (node :: path) entry)
    (hsuccessor : search.Visited successor) {b : Nat}
    (hb : b = successor ∨ search.Followed (node :: path) entry node b) :
    (search.lowerTo node successor).Followed (node :: path) entry node b := by
  have hnode : search.Visited node := hinv.visited_of_open (by simp)
  have hlow := lowerTo_lowOf_self hnode hsuccessor
  refine ⟨(search.visited_lowerTo_iff successor hnode b).mpr ?_, ?_⟩
  · rcases hb with rfl | hb
    · exact hsuccessor
    · exact hb.1
  · intro hopen
    rw [lowerTo_left] at hopen
    rw [hlow]
    rcases hb with rfl | hb
    · rw [if_neg ((hinv.mem_open_iff b).mp hopen).2]
      exact Nat.le_trans (Nat.min_le_right _ _) (hinv.low_le_entry b hsuccessor)
    · have hle := hb.2 hopen
      split
      · exact hle
      · exact Nat.le_trans (Nat.min_le_left _ _) hle

/-- A node whose low number was lowered is set aside when it is left. -/
theorem setAside (hinv : search.Invariant size successors (node :: path) entry)
    (hlow : search.lowOf node < entry node)
    (hfollowed : ∀ b ∈ successors node, search.Followed (node :: path) entry node b) :
    { search with left := node :: search.left }.Invariant size successors path entry := by
  have hperm : (path ++ node :: search.left).Perm (node :: path ++ search.left) :=
    List.perm_middle
  have hmem : ∀ a, a ∈ path ++ node :: search.left ↔ a ∈ node :: path ++ search.left :=
    fun a => hperm.mem_iff
  constructor
  case lt_size => exact hinv.lt_size
  case visited_iff =>
    intro a
    exact (hinv.visited_iff a).trans (hperm.append_right search.finishedNodes).mem_iff.symm
  case nodup =>
    exact (hperm.append_right search.finishedNodes).nodup_iff.mpr hinv.nodup
  case entry_lt => exact hinv.entry_lt
  case entry_injective => exact hinv.entry_injective
  case low_le_entry => exact hinv.low_le_entry
  case left_low_lt =>
    intro a ha
    rcases List.mem_cons.mp ha with hane | ha
    · rw [hane]
      exact hlow
    · exact hinv.left_low_lt a ha
  case low_attained =>
    intro a ha
    rcases hinv.low_attained a ((hmem a).mp ha) with ⟨b, hb, hentry, hreach⟩
    exact ⟨b, (hmem b).mpr hb, hentry, hreach⟩
  case path_reaches =>
    intro p hp a ha
    exact hinv.path_reaches p (List.mem_cons_of_mem _ hp) a ((hmem a).mp ha)
  case left_edge =>
    intro a ha b hb
    have hab : search.Followed (node :: path) entry a b := by
      rcases List.mem_cons.mp ha with hane | ha
      · rw [hane] at hb ⊢
        exact hfollowed b hb
      · exact hinv.left_edge a ha b hb
    exact ⟨hab.1, fun hopen => hab.2 ((hmem b).mp hopen)⟩
  case finished_edge => exact hinv.finished_edge
  case component => exact hinv.component

variable {new rest : List Nat}

theorem mem_open_of_rooted (hrooted : search.Rooted successors path entry node new rest) {a : Nat} :
    a ∈ node :: path ++ search.left ↔ a ∈ node :: new ∨ a ∈ path ++ rest := by
  simp only [hrooted.left_eq, List.mem_append, List.mem_cons]
  tauto

theorem root_low_le (hrooted : search.Rooted successors path entry node new rest) :
    ∀ a ∈ node :: new, entry node ≤ search.lowOf a := by
  intro a ha
  rcases List.mem_cons.mp ha with hane | ha
  · rw [hane, hrooted.low_eq]
  · exact hrooted.low_new a ha

/-- No edge leaves the nodes left since the entry of the root, unless to a finished node. -/
theorem edge_of_rooted (hinv : search.Invariant size successors (node :: path) entry)
    (hrooted : search.Rooted successors path entry node new rest) :
    ∀ a ∈ node :: new, ∀ b ∈ successors a, b ∈ node :: new ∨ b ∈ search.finishedNodes := by
  intro a ha b hb
  have hab : search.Followed (node :: path) entry a b := by
    rcases List.mem_cons.mp ha with hane | ha
    · rw [hane] at hb ⊢
      exact hrooted.followed b hb
    · exact hinv.left_edge a (by simp [hrooted.left_eq, ha]) b hb
  by_cases hfinished : b ∈ search.finishedNodes
  · exact .inr hfinished
  · have hopen := (hinv.mem_open_iff b).mpr ⟨hab.1, hfinished⟩
    rcases (mem_open_of_rooted hrooted).mp hopen with hmem | hmem
    · exact .inl hmem
    · have hentry := hrooted.earlier b hmem
      have hle := (root_low_le hrooted a ha).trans (hab.2 hopen)
      omega

theorem reaches_of_rooted (hinv : search.Invariant size successors (node :: path) entry)
    (hrooted : search.Rooted successors path entry node new rest) :
    ∀ a ∈ node :: new, Reaches successors node a ∧ Reaches successors a node := by
  intro a ha
  have hopen := (mem_open_of_rooted hrooted).mpr (.inl ha)
  constructor
  · refine hinv.path_reaches node (by simp) a hopen ?_
    exact (root_low_le hrooted a ha).trans (hinv.low_le_entry a (hinv.visited_of_open hopen))
  · rcases List.mem_cons.mp ha with hane | hanew
    · rw [hane]
    · rcases hinv.left_reaches_path (entry a) a (by simp [hrooted.left_eq, hanew]) le_rfl with
        ⟨p, hp, hap⟩
      refine hap.trans (hinv.path_reaches p hp node (by simp) ?_)
      rcases List.mem_cons.mp hp with hpne | hp
      · rw [hpne]
      · exact (hrooted.earlier p (List.mem_append_left _ hp)).le

theorem component_of_rooted (hinv : search.Invariant size successors (node :: path) entry)
    (hrooted : search.Rooted successors path entry node new rest) :
    IsComponent successors (node :: new) := by
  have hreach := hinv.reaches_of_rooted hrooted
  refine ⟨by simp, fun a ha b => ⟨fun hb => ?_, fun ⟨hab, hba⟩ => ?_⟩⟩
  · exact ⟨(hreach a ha).2.trans (hreach b hb).1, (hreach b hb).2.trans (hreach a ha).1⟩
  · have hstays : ∀ c, Reaches successors a c → c ∈ node :: new ∨ c ∈ search.finishedNodes := by
      intro c hac
      induction hac with
      | refl => exact .inl ha
      | tail _ hedge ih =>
          rcases ih with hmem | hmem
          · exact hinv.edge_of_rooted hrooted _ hmem _ hedge
          · exact .inr (hinv.finished_edge _ hmem _ hedge)
    have hfinished : b ∈ search.finishedNodes →
        ∀ c, Reaches successors b c → c ∈ search.finishedNodes := by
      intro hb c hbc
      induction hbc with
      | refl => exact hb
      | tail _ hedge ih => exact hinv.finished_edge _ ih _ hedge
    have hopen := (mem_open_of_rooted hrooted).mpr (.inl ha)
    rcases hstays b hab with hb | hb
    · exact hb
    · exact absurd (hfinished hb a hba) ((hinv.mem_open_iff a).mp hopen).2

/-- A node whose low number was never lowered closes a component when it is left. -/
theorem close (hinv : search.Invariant size successors (node :: path) entry)
    (hrooted : search.Rooted successors path entry node new rest) :
    { search with
      left := rest
      finished := (new.reverse ++ [node]) :: search.finished }.Invariant
        size successors path entry := by
  have hcomponent : (node :: new).Perm (new.reverse ++ [node]) :=
    ((List.reverse_perm new).symm.cons node).trans (List.perm_append_singleton node _).symm
  have hmem : ∀ a, a ∈ new.reverse ++ [node] ↔ a ∈ node :: new :=
    fun a => hcomponent.mem_iff.symm
  have hopen : ∀ a ∈ path ++ rest, a ∈ node :: path ++ search.left :=
    fun a ha => (mem_open_of_rooted hrooted).mpr (.inr ha)
  have hperm : (path ++ rest ++ ((new.reverse ++ [node]) ++ search.finishedNodes)).Perm
      (node :: path ++ search.left ++ search.finishedNodes) := by
    rw [← List.append_assoc, hrooted.left_eq]
    apply List.Perm.append_right
    calc
      (path ++ rest ++ (new.reverse ++ [node])).Perm (path ++ rest ++ (node :: new)) :=
        hcomponent.symm.append_left _
      (path ++ rest ++ (node :: new)).Perm (node :: new ++ (path ++ rest)) :=
        List.perm_append_comm
      (node :: new ++ (path ++ rest)).Perm (node :: path ++ (new ++ rest)) := by
        simpa using (List.perm_append_comm_assoc new path rest)
  have hstays : ∀ a ∈ path ++ rest, ∀ b ∈ node :: path ++ search.left,
      entry b = search.lowOf a → b ∈ path ++ rest := by
    intro a ha b hb hlow
    rcases (mem_open_of_rooted hrooted).mp hb with hb | hb
    · have hle := (root_low_le hrooted b hb).trans
        (hinv.low_le_entry b (hinv.visited_of_open ((mem_open_of_rooted hrooted).mpr (.inl hb))))
      have hlt := hrooted.earlier a ha
      have hle' := hinv.low_le_entry a (hinv.visited_of_open (hopen a ha))
      omega
    · exact hb
  constructor
  case lt_size => exact hinv.lt_size
  case visited_iff =>
    intro a
    exact (hinv.visited_iff a).trans hperm.mem_iff.symm
  case nodup => exact hperm.nodup_iff.mpr hinv.nodup
  case entry_lt => exact hinv.entry_lt
  case entry_injective => exact hinv.entry_injective
  case low_le_entry => exact hinv.low_le_entry
  case left_low_lt =>
    intro a ha
    exact hinv.left_low_lt a (by simp [hrooted.left_eq, show a ∈ rest from ha])
  case low_attained =>
    intro a ha
    rcases hinv.low_attained a (hopen a ha) with ⟨b, hb, hentry, hreach⟩
    exact ⟨b, hstays a ha b hb hentry, hentry, hreach⟩
  case path_reaches =>
    intro p hp a ha
    exact hinv.path_reaches p (List.mem_cons_of_mem _ hp) a (hopen a ha)
  case left_edge =>
    intro a ha b hb
    have hab := hinv.left_edge a (by simp [hrooted.left_eq, show a ∈ rest from ha]) b hb
    exact ⟨hab.1, fun hbopen => hab.2 (hopen b hbopen)⟩
  case finished_edge =>
    intro a ha b hb
    simp only [finishedNodes, List.flatten_cons, List.mem_append (s := new.reverse ++ [node]),
      hmem] at ha ⊢
    rcases ha with ha | ha
    · exact hinv.edge_of_rooted hrooted a ha b hb
    · exact .inr (hinv.finished_edge a ha b hb)
  case component =>
    intro nodes hnodes
    rcases List.mem_cons.mp hnodes with hnodes | hnodes
    · rw [hnodes]
      exact (hinv.component_of_rooted hrooted).perm hcomponent
    · exact hinv.component nodes hnodes

end Invariant

/-! ### Leaving a node -/

theorem leave_of_lowered (hvisited : search.Visited node) {number : Nat}
    (hlow : search.lowOf node ≠ number) :
    search.leave node number = { search with left := node :: search.left } := by
  rw [leave, low_eq_lowOf hvisited]
  simp [hlow]

def lowAtLeast (search : Search) (number other : Nat) : Bool :=
  (search.low other).any (number ≤ ·)

theorem leave_of_low {number : Nat} (hlow : search.low node = some number) :
    search.leave node number =
      { search with
        left := search.left.dropWhile (search.lowAtLeast number)
        finished := ((search.left.takeWhile (search.lowAtLeast number)).reverse ++ [node]) ::
          search.finished } := by
  simp only [leave, if_pos hlow]
  congr 3
  · funext other
    unfold lowAtLeast
    cases search.low other <;> rfl
  · congr 2
    funext other
    unfold lowAtLeast
    cases search.low other <;> rfl

theorem lowAtLeast_iff {number : Nat} {other : Nat} (hvisited : search.Visited other) :
    search.lowAtLeast number other ↔ number ≤ search.lowOf other := by
  rw [lowAtLeast, low_eq_lowOf hvisited]
  simp

theorem leave_of_rooted {new rest : List Nat}
    (hinv : search.Invariant size successors (node :: path) entry)
    (hrooted : search.Rooted successors path entry node new rest) :
    search.leave node (entry node) =
      { search with
        left := rest
        finished := (new.reverse ++ [node]) :: search.finished } := by
  have hvisited : ∀ a ∈ node :: path ++ search.left, search.Visited a :=
    fun a ha => hinv.visited_of_open ha
  have hlow : search.low node = some (entry node) := by
    rw [low_eq_lowOf (hvisited node (by simp)), hrooted.low_eq]
  have hkeep : ∀ a ∈ new, search.lowAtLeast (entry node) a := by
    intro a ha
    rw [lowAtLeast_iff (hvisited a (by simp [hrooted.left_eq, ha]))]
    exact hrooted.low_new a ha
  have hdrop : ∀ a ∈ rest, ¬search.lowAtLeast (entry node) a := by
    intro a ha
    have hvisitedRest := hvisited a (by simp [hrooted.left_eq, ha])
    have hle := hinv.low_le_entry a hvisitedRest
    have hlt := hrooted.earlier a (by simp [ha])
    rw [lowAtLeast_iff hvisitedRest]
    omega
  have hnew : search.left.takeWhile (search.lowAtLeast (entry node)) = new := by
    rw [hrooted.left_eq, List.takeWhile_append_of_pos hkeep]
    cases rest with
    | nil => simp
    | cons a others => simp [hdrop a (by simp)]
  have hrest : search.left.dropWhile (search.lowAtLeast (entry node)) = rest := by
    rw [hrooted.left_eq, List.dropWhile_append_of_pos hkeep]
    cases rest with
    | nil => rfl
    | cons a others => simp [hdrop a (by simp)]
  rw [leave_of_low hlow, hnew, hrest]

end Search

end SchemaDesign.Graph
