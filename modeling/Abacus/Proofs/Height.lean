import Abacus.Expr.Basic
import Mathlib.Algebra.GroupWithZero.Nat

/-!
# The height of a tree

The depth of a tree is found with a list of nodes still to look at. It is the height of the
tree, which is found by recursion: one more than the height of the highest operand.

The search is taken look by look. A look takes one node from those that are left, and does not
change how far down the search will come. So the search is over after as many looks as the tree
has nodes, and its bound on the number of looks never cuts it short.
-/

namespace Abacus.Expr

/-- How high a tree is. A leaf has height one. -/
def height : Expr → Nat
  | unary _ _ e => e.height + 1
  | binary _ _ l r => max l.height r.height + 1
  | _ => 1

theorem size_pos (e : Expr) : 0 < e.size := by
  cases e <;> simp only [size] <;> omega

/-! ### One look -/

/-- Where a search for the deepest level stands. -/
structure Search where
  /-- The trees still to look into, each with the level of its root, the next one first. -/
  pending : List (Expr × Nat)
  /-- The deepest level so far. -/
  deepest : Nat

namespace Search

/-- The search of a tree before its first look. -/
def start (e : Expr) : Search := ⟨[(e, 1)], 0⟩

/-- A look at the root of the next tree. The nodes right below it are then pending, the last of
them first. A search with nothing pending is over. -/
def look? : Search → Option Search
  | ⟨[], _⟩ => none
  | ⟨(e, level) :: pending, deepest⟩ =>
    some ⟨(e.children.map fun child => (child, level + 1)).reverse ++ pending, max deepest level⟩

/-- How many nodes were not looked at. -/
def remaining (s : Search) : Nat := (s.pending.map fun p => p.1.size).sum

/-- How far down the search comes: to the lowest level of a pending tree, or to the deepest level
so far. -/
def reach (s : Search) : Nat := max s.deepest ((s.pending.map fun p => p.2 + p.1.height - 1).foldr max 0)

theorem remaining_start (e : Expr) : (start e).remaining = e.size := by
  simp [start, remaining]

theorem reach_start (e : Expr) : (start e).reach = e.height := by
  simp [start, reach]

theorem isSome_look?_iff (s : Search) : s.look?.isSome ↔ 0 < s.remaining := by
  obtain ⟨_ | ⟨p, pending⟩, deepest⟩ := s
  · simp [look?, remaining]
  · have := size_pos p.1
    simp only [look?, remaining, Option.isSome_some, List.map_cons, List.sum_cons, true_iff]
    omega

/-- A look takes one node, and the search comes as far down as before. -/
theorem of_look? {s t : Search} (h : s.look? = some t) : t.remaining + 1 = s.remaining ∧ t.reach = s.reach := by
  obtain ⟨_ | ⟨⟨e, level⟩, pending⟩, deepest⟩ := s
  · cases h
  · obtain rfl := Option.some.inj h
    cases e with
    | number | identifier | foreign =>
      simp only [remaining, reach, children, size, height, List.map_nil, List.reverse_nil, List.nil_append,
        List.map_cons, List.sum_cons, List.foldr_cons]
      omega
    | unary p op e =>
      simp only [remaining, reach, children, size, height, List.map_cons, List.map_nil, List.reverse_singleton,
        List.singleton_append, List.sum_cons, List.foldr_cons]
      refine ⟨by omega, ?_⟩
      -- The operand goes as far down as the whole tree, and so below the level of its root.
      have hlowest : level + (e.height + 1) - 1 = level + 1 + e.height - 1 := by omega
      have hlevel : level ≤ level + 1 + e.height - 1 := by omega
      rw [hlowest, Nat.max_assoc, Nat.max_eq_right (Nat.le_trans hlevel (Nat.le_max_left ..))]
    | binary p op l r =>
      simp only [remaining, reach, children, size, height, List.map_cons, List.map_nil, List.reverse_cons,
        List.reverse_nil, List.nil_append, List.cons_append, List.sum_cons, List.foldr_cons]
      refine ⟨by omega, ?_⟩
      have hlowest : level + (max l.height r.height + 1) - 1 =
          max (level + 1 + r.height - 1) (level + 1 + l.height - 1) := by omega
      have hlevel : level ≤ level + 1 + r.height - 1 := by omega
      rw [hlowest, Nat.max_assoc, Nat.max_assoc, Nat.max_eq_right (Nat.le_trans hlevel (Nat.le_max_left ..))]

/-! ### Many looks -/

/-- So many looks, unless the search is over before. -/
def looks? : Nat → Search → Option Search
  | 0, s => some s
  | n + 1, s => s.look?.bind (looks? n)

theorem of_looks? {n : Nat} {s t : Search} (h : s.looks? n = some t) :
    t.remaining + n = s.remaining ∧ t.reach = s.reach := by
  induction n generalizing s with
  | zero =>
    obtain rfl := Option.some.inj h
    exact ⟨rfl, rfl⟩
  | succ n ih =>
    obtain ⟨u, hu, ht⟩ := Option.bind_eq_some_iff.mp h
    have hlook := of_look? hu
    have hlooks := ih ht
    omega

theorem exists_looks? {n : Nat} {s : Search} (h : n ≤ s.remaining) : ∃ t, s.looks? n = some t := by
  induction n generalizing s with
  | zero => exact ⟨s, rfl⟩
  | succ n ih =>
    obtain ⟨u, hu⟩ := Option.isSome_iff_exists.mp ((isSome_look?_iff s).mpr (by omega))
    have hlook := of_look? hu
    obtain ⟨t, ht⟩ := ih (s := u) (by omega)
    exact ⟨t, Option.bind_eq_some_iff.mpr ⟨u, hu, ht⟩⟩

theorem looks?_eq_none {n : Nat} {s : Search} (h : s.remaining < n) : s.looks? n = none := by
  refine Option.eq_none_iff_forall_ne_some.mpr fun t ht => ?_
  have hremaining := (of_looks? ht).1
  omega

/-- After a look at each node nothing is pending, and the deepest level is found. -/
theorem looks?_remaining (s : Search) : s.looks? s.remaining = some ⟨[], s.reach⟩ := by
  obtain ⟨t, ht⟩ := exists_looks? (Nat.le_refl s.remaining)
  obtain ⟨hremaining, hreach⟩ := of_looks? ht
  obtain ⟨_ | ⟨p, pending⟩, deepest⟩ := t
  · simp only [reach, List.map_nil, List.foldr_nil, Nat.max_zero] at hreach
    rw [ht, hreach, reach]
  · have := size_pos p.1
    simp only [remaining, List.map_cons, List.sum_cons] at hremaining
    omega

/-- A search with a bound goes look by look. -/
theorem depthFrom_of_looks? {n : Nat} {s t : Search} (h : s.looks? n = some t) (fuel : Nat) :
    depthFrom (n + fuel) s.pending s.deepest = depthFrom fuel t.pending t.deepest := by
  induction n generalizing s with
  | zero =>
    obtain rfl := Option.some.inj h
    rw [Nat.zero_add]
  | succ n ih =>
    obtain ⟨u, hu, ht⟩ := Option.bind_eq_some_iff.mp h
    rw [← ih ht, Nat.succ_add]
    obtain ⟨_ | ⟨p, pending⟩, deepest⟩ := s
    · cases hu
    · obtain rfl := Option.some.inj hu
      rfl

end Search

/-! ### The whole search -/

theorem Search.looks?_start (e : Expr) : (start e).looks? e.size = some ⟨[], e.height⟩ := by
  rw [← remaining_start, ← reach_start]
  exact looks?_remaining (start e)

/-- A bound that lets the search look at each node is never felt. -/
theorem depthFrom_size_add (e : Expr) (fuel : Nat) : depthFrom (e.size + fuel) [(e, 1)] 0 = e.height := by
  have hdepth : depthFrom (e.size + fuel) [(e, 1)] 0 = depthFrom fuel [] e.height :=
    Search.depthFrom_of_looks? (Search.looks?_start e) fuel
  cases fuel <;> exact hdepth

/-- The depth of a tree is its height. -/
theorem depth_eq_height (e : Expr) : e.depth = e.height := depthFrom_size_add e 0

/-- The search for the depth of a tree ends after one look at each node, with nothing pending and
the height of the tree found, and takes no look beyond. With a bound on the number of looks it has
found, after each of them, what it finds without one, and a bound above the number of nodes is
never felt. -/
theorem depth_search_finds_height (e : Expr) :
    (Search.start e).looks? e.size = some ⟨[], e.height⟩ ∧
    (∀ n, ((Search.start e).looks? n).map Search.deepest =
      if n ≤ e.size then some (depthFrom n [(e, 1)] 0) else none) ∧
    (∀ fuel, depthFrom (e.size + fuel) [(e, 1)] 0 = e.height) ∧ e.depth = e.height := by
  refine ⟨Search.looks?_start e, fun n => ?_, depthFrom_size_add e, depth_eq_height e⟩
  have hremaining := Search.remaining_start e
  split
  next hle =>
    obtain ⟨s, hs⟩ := Search.exists_looks? (hremaining.symm ▸ hle)
    have hdepth : depthFrom n [(e, 1)] 0 = s.deepest := Search.depthFrom_of_looks? hs 0
    rw [hs, hdepth, Option.map_some]
  next hlt =>
    rw [Search.looks?_eq_none (by omega), Option.map_none]

end Abacus.Expr
