import Mathlib.Data.List.Nodup
import Mathlib.Data.List.Perm.Subperm
import Mathlib.Order.Nat

/-!
# Ordered hierarchies

A hierarchy is kept as a table of rows: a key, the key of its parent (or none for a root) and a
value. The order of the rows is the order in which nodes were attached to their parents, so the
children of a node are the rows with that parent, in table order. Adding, moving and removing
nodes are list operations on the table.

A table need not be a forest: nothing stops a row from being its own ancestor. `IsForest` is the
invariant that makes it one. It says, besides that keys are unique and parents exist, that the
way up from every key ends at a root.

## Main definitions

* `Hierarchy.Table` — rows of key, parent and value.
* `Hierarchy.kids` — the children of a node, or the roots, in the order they were attached.
* `Hierarchy.add`, `Hierarchy.modify`, `Hierarchy.move`, `Hierarchy.remove` — the operations.
* `Hierarchy.Depth`, `Hierarchy.Below` — the length of the way up, and being in a subtree.
* `Hierarchy.IsForest` — unique keys, existing parents, finite ways up.

## Main results

* `Hierarchy.kids_add`, `Hierarchy.kids_move`, `Hierarchy.kids_remove` — children afterwards.
* `Hierarchy.IsForest.move` and its companions — the operations keep a forest a forest; a move does
  if the new parent is not in the moved subtree.
-/

namespace Hierarchy

open List

/-- A node: its key, its parent's key, its value. -/
structure Row (K V : Type) where
  key : K
  parent : Option K
  val : V
  deriving DecidableEq

/-- A hierarchy as a table, in the order in which the nodes were attached. -/
abbrev Table (K V : Type) := List (Row K V)

variable {K V : Type} [DecidableEq K]

/-! ### The operations -/

/-- All keys. -/
def keys (t : Table K V) : List K := t.map Row.key

/-- The children of a node, or the roots for `none`. -/
def kids (t : Table K V) (q : Option K) : List K := (t.filter fun r => r.parent = q).map Row.key

/-- The row of a key. -/
def row? (t : Table K V) (k : K) : Option (Row K V) := t.find? fun r => r.key = k

/-- The value stored under a key. -/
def val? (t : Table K V) (k : K) : Option V := (row? t k).map Row.val

/-- Attach a new node as the last child of `q`. -/
def add (t : Table K V) (k : K) (q : Option K) (v : V) : Table K V := t ++ [⟨k, q, v⟩]

/-- Change the value of a node. -/
def modify (t : Table K V) (k : K) (f : V → V) : Table K V :=
  t.map fun r => if r.key = k then { r with val := f r.val } else r

/-- Detach a node (with everything below it) and attach it as the last child of `q`. -/
def move (t : Table K V) (k : K) (q : Option K) : Table K V :=
  match row? t k with
  | none => t
  | some r => t.filter (fun r => r.key ≠ k) ++ [{ r with parent := q }]

/-- Make a row the last child of another one, unless it is a child of it already. -/
def adopt (t : Table K V) (k p : K) : Table K V :=
  if k ∈ kids t (some p) then t else move t k (some p)

/-- The keys of a subtree, parents first, down to `n` levels below its root. -/
def below (t : Table K V) : ℕ → K → List K
  | 0, k => [k]
  | n + 1, k => k :: (kids t (some k)).flatMap (below t n)

/-- Remove a node and everything below it. -/
def remove (t : Table K V) (k : K) : Table K V :=
  t.filter fun r => r.key ∉ below t t.length k

/-! ### Rows and children -/

variable {t : Table K V} {k x y p c c' : K} {q q' : Option K} {v : V} {m n d : ℕ} {r r' : Row K V}

/-- The children of a place. -/
lemma mem_kids : x ∈ kids t q ↔ ∃ r ∈ t, r.key = x ∧ r.parent = q := by
  simp only [kids, mem_map, mem_filter, decide_eq_true_eq]
  exact ⟨fun ⟨r, ⟨hr, hq⟩, hx⟩ => ⟨r, hr, hx, hq⟩, fun ⟨r, hr, hx, hq⟩ => ⟨r, ⟨hr, hq⟩, hx⟩⟩

omit [DecidableEq K] in
/-- The keys of a table. -/
lemma mem_keys : x ∈ keys t ↔ ∃ r ∈ t, r.key = x := mem_map

/-- Children are in the table. -/
lemma mem_keys_of_kids (h : x ∈ kids t q) : x ∈ keys t := by
  obtain ⟨r, hr, hx, -⟩ := mem_kids.1 h
  exact mem_keys.2 ⟨r, hr, hx⟩

/-- A row is a child of its parent. -/
lemma kids_of_mem (h : r ∈ t) : r.key ∈ kids t r.parent := mem_kids.2 ⟨r, h, rfl, rfl⟩

/-- Each key has a place. -/
lemma exists_kids (h : x ∈ keys t) : ∃ q, x ∈ kids t q := by
  obtain ⟨r, hr, rfl⟩ := mem_keys.1 h
  exact ⟨_, kids_of_mem hr⟩

omit [DecidableEq K] in
/-- One row for a key. -/
lemma row_unique (hnd : (keys t).Nodup) (hr : r ∈ t) (hr' : r' ∈ t) (h : r.key = r'.key) :
    r = r' := inj_on_of_nodup_map hnd hr hr' h

/-- The row of a key. -/
lemma row?_eq_some (hnd : (keys t).Nodup) : row? t k = some r ↔ r ∈ t ∧ r.key = k := by
  constructor
  · intro h
    exact ⟨mem_of_find?_eq_some h, by simpa using find?_some h⟩
  · rintro ⟨hr, rfl⟩
    rcases hf : row? t r.key with _ | r'
    · exact absurd (find?_eq_none.1 hf r hr) (by simp)
    · have hk : r'.key = r.key := by simpa using find?_some hf
      rw [row_unique hnd (mem_of_find?_eq_some hf) hr hk]

/-- There is none without the key. -/
lemma row?_eq_none : row? t k = none ↔ k ∉ keys t := by
  simp [row?, keys]

/-- One place for a key. -/
lemma kids_unique (hnd : (keys t).Nodup) (h : x ∈ kids t q) (h' : x ∈ kids t q') : q = q' := by
  obtain ⟨r, hr, hx, rfl⟩ := mem_kids.1 h
  obtain ⟨r', hr', hx', rfl⟩ := mem_kids.1 h'
  rw [row_unique hnd hr hr' (hx.trans hx'.symm)]

/-- No child twice. -/
lemma nodup_kids (hnd : (keys t).Nodup) : (kids t q).Nodup := hnd.sublist (filter_sublist.map _)

/-! ### Children after an operation -/

/-- The children after adding a key. -/
lemma kids_add : kids (add t k q v) q' = kids t q' ++ if q = q' then [k] else [] := by
  simp only [kids, add]
  by_cases h : q = q' <;> simp [h]

omit [DecidableEq K] in
/-- The keys after adding one. -/
lemma keys_add : keys (add t k q v) = keys t ++ [k] := by simp [keys, add]

variable (f : V → V) (P : K → Bool)

/-- A new value moves nothing. -/
lemma kids_modify : kids (modify t k f) q = kids t q := by
  simp only [kids, modify]
  induction t with
  | nil => rfl
  | cons r t ih =>
    by_cases hk : r.key = k <;> by_cases hq : r.parent = q <;> simp [hk, hq, ih]

/-- It keeps the keys. -/
lemma keys_modify : keys (modify t k f) = keys t := by
  simp only [keys, modify, map_map]
  refine map_congr_left fun r _ => ?_
  by_cases hk : r.key = k <;> simp [hk]

/-- A row of the changed table comes from a row with the same key and parent. -/
lemma mem_modify {f : V → V} : r ∈ modify t k f ↔
    ∃ r0 ∈ t, r = if r0.key = k then { r0 with val := f r0.val } else r0 := by
  simp only [modify, mem_map, eq_comm]

/-- Only the value at the key matters. -/
lemma modify_congr {f g : V → V} (h : ∀ r ∈ t, r.key = k → f r.val = g r.val) :
    modify t k f = modify t k g := by
  refine map_congr_left fun r hr => ?_
  by_cases hk : r.key = k
  · simp [h r hr hk]
  · simp [hk]

/-- The same value again. -/
lemma modify_id {f : V → V} (h : ∀ r ∈ t, r.key = k → f r.val = r.val) : modify t k f = t := by
  rw [modify_congr (g := id) h, modify]
  simp

/-- The children that are left. -/
lemma kids_filter : kids (t.filter fun r => P r.key) q = (kids t q).filter P := by
  simp only [kids, filter_filter, filter_map]
  congr 1
  refine filter_congr fun r _ => ?_
  simp [Bool.and_comm]

omit [DecidableEq K] in
/-- The keys that are left. -/
lemma keys_filter : keys (t.filter fun r => P r.key) = (keys t).filter P := by
  simp only [keys, filter_map]
  rfl

/-- The children after a removal. -/
lemma kids_remove : kids (remove t k) q = (kids t q).filter fun x => x ∉ below t t.length k :=
  kids_filter fun x => x ∉ below t t.length k

/-- The keys after a removal. -/
lemma keys_remove : keys (remove t k) = (keys t).filter fun x => x ∉ below t t.length k :=
  keys_filter fun x => x ∉ below t t.length k

/-- The rows after a removal. -/
lemma mem_remove : r ∈ remove t k ↔ r ∈ t ∧ r.key ∉ below t t.length k := by
  rw [remove, mem_filter, decide_eq_true_iff]

/-- A move puts the row last. -/
lemma move_eq (h : row? t k = some r) :
    move t k q = t.filter (fun r => r.key ≠ k) ++ [{ r with parent := q }] := by
  rw [move, h]

section

variable (hnd : (keys t).Nodup)

include hnd

/-- **Children after a move**: the node leaves its old place and comes last at the new one. -/
lemma kids_move (hk : k ∈ keys t) :
    kids (move t k q) q' = (kids t q').filter (fun x => x ≠ k) ++ if q = q' then [k] else [] := by
  obtain ⟨r, hr, hrk⟩ := mem_keys.1 hk
  rw [move_eq ((row?_eq_some hnd).2 ⟨hr, hrk⟩), ← kids_filter fun x => x ≠ k]
  simp only [kids]
  by_cases h : q = q' <;> simp [h, hrk]

/-- The keys after a move. -/
lemma keys_move (hk : k ∈ keys t) :
    keys (move t k q) = (keys t).filter (fun x => x ≠ k) ++ [k] := by
  obtain ⟨r, hr, hrk⟩ := mem_keys.1 hk
  rw [move_eq ((row?_eq_some hnd).2 ⟨hr, hrk⟩), ← keys_filter fun x => x ≠ k]
  simp [keys, hrk]

/-- A move makes no key twice. -/
lemma nodup_keys_move (hk : k ∈ keys t) : (keys (move t k q)).Nodup := by
  rw [keys_move hnd hk]
  exact (hnd.filter _).append (nodup_singleton k) (by simp)

/-- Adopting moves the key, if needed. -/
lemma adopt_eq (hk : k ∈ kids t q) :
    adopt t k p = if q = some p then t else move t k (some p) :=
  if_congr ⟨fun h => kids_unique hnd hk h, fun h => h ▸ hk⟩ rfl rfl

/-- A row of the table after a move comes from a row with the same key and value. -/
lemma exists_of_mem_move (hk : k ∈ keys t) (hr : r ∈ move t k q) :
    ∃ r0 ∈ t, r.key = r0.key ∧ r.val = r0.val := by
  obtain ⟨r1, hr1, hrk⟩ := mem_keys.1 hk
  rw [move_eq ((row?_eq_some hnd).2 ⟨hr1, hrk⟩), mem_append, mem_singleton] at hr
  rcases hr with hr | rfl
  · exact ⟨r, mem_of_mem_filter hr, rfl, rfl⟩
  · exact ⟨r1, hr1, rfl, rfl⟩

/-- A table after a row has got another parent: the other rows are as before. -/
lemma mem_adopt (hk : row? t k = some r') :
    r ∈ adopt t k p ↔ (r ∈ t ∧ r.key ≠ k) ∨ r = { r' with parent := some p } := by
  obtain ⟨hr', hkey⟩ := (row?_eq_some hnd).1 hk
  rw [adopt]
  split_ifs with hkid
  · have hparent : r'.parent = some p := kids_unique hnd (hkey ▸ kids_of_mem hr') hkid
    have heq : ({ r' with parent := some p } : Row K V) = r' := by rw [← hparent]
    rw [heq]
    constructor
    · intro hr
      by_cases hrk : r.key = k
      · exact .inr (row_unique hnd hr hr' (hrk.trans hkey.symm))
      · exact .inl ⟨hr, hrk⟩
    · rintro (⟨hr, -⟩ | rfl)
      · exact hr
      · exact hr'
  · rw [move_eq hk, mem_append, mem_filter, mem_singleton]
    simp only [decide_not, Bool.not_eq_true', decide_eq_false_iff_not]

end

/-- Adding changes no other row. -/
lemma row?_add_of_ne (h : x ≠ k) : row? (add t k q v) x = row? t x := by
  rw [add]
  simp [Ne.symm h, row?]

/-- The row that was added. -/
lemma row?_add_self (h : row? t k = none) : row? (add t k q v) k = some ⟨k, q, v⟩ := by
  rw [row?, add, find?_append, ← row?, h]
  simp

/-- A new value changes no other row. -/
lemma row?_modify_of_ne (h : x ≠ k) (f : V → V) : row? (modify t k f) x = row? t x := by
  induction t with
  | nil => rfl
  | cons r t ih =>
    have hkey : (if r.key = k then { r with val := f r.val } else r).key = r.key := by
      split_ifs <;> rfl
    rw [show modify (r :: t) k f = (if r.key = k then { r with val := f r.val } else r) ::
      modify t k f from rfl, row?, row?]
    by_cases hrx : r.key = x
    · have hrk : r.key ≠ k := hrx ▸ h
      rw [if_neg hrk, find?_cons_of_pos (by simpa), find?_cons_of_pos (by simpa)]
    · rw [find?_cons_of_neg (by simpa [hkey]), find?_cons_of_neg (by simpa)]
      exact ih

/-- Nor does adopting. -/
lemma row?_adopt_of_ne (hnd : (keys t).Nodup) (hk : k ∈ keys t) (h : x ≠ k) :
    row? (adopt t k p) x = row? t x := by
  obtain ⟨r1, hr1, hrk⟩ := mem_keys.1 hk
  rw [adopt]
  split_ifs
  · rfl
  · rw [move_eq ((row?_eq_some hnd).2 ⟨hr1, hrk⟩), row?, find?_append, find?_filter]
    have hlast : ([{ r1 with parent := some p }] : List (Row K V)).find? (fun r => r.key = x) =
      none := by
      simp [hrk, Ne.symm h]
    rw [hlast, Option.or_none]
    congr 1
    funext r
    by_cases hrx : r.key = x
    · simp [hrx, h]
    · simp [hrx]

/-! ### Depth and subtrees -/

/-- `Depth t x n`: the way up from `x` has `n` steps. -/
inductive Depth (t : Table K V) : K → ℕ → Prop
  | root {x : K} : x ∈ kids t none → Depth t x 0
  | child {x p : K} {n : ℕ} : x ∈ kids t (some p) → Depth t p n → Depth t x (n + 1)

/-- The parent is one level up. -/
lemma Depth.parent {p : K} {n : ℕ} (hnd : (keys t).Nodup) (hp : x ∈ kids t (some p))
    (h : Depth t x n) :
    ∃ m, n = m + 1 ∧ Depth t p m := by
  cases h with
  | root hroot => exact absurd (kids_unique hnd hp hroot) (by simp)
  | child hp' hd =>
    obtain rfl := Option.some.inj (kids_unique hnd hp hp')
    exact ⟨_, rfl, hd⟩

/-- `Below t x y`: the way up from `y` passes `x`. -/
inductive Below (t : Table K V) (x : K) : K → Prop
  | refl : Below t x x
  | step {p y : K} : Below t x p → y ∈ kids t (some p) → Below t x y

/-- Only the children matter. -/
lemma Below.congr {V' : Type} {t' : Table K V'} (hkids : ∀ q, kids t' q = kids t q)
    (h : Below t x y) : Below t' x y := by
  induction h with
  | refl => exact .refl
  | step _ hy ih => exact .step ih (by rwa [hkids])

/-- Unique keys, existing parents, finite ways up. -/
structure IsForest (t : Table K V) : Prop where
  nodup : (keys t).Nodup
  closed : ∀ {x p}, x ∈ kids t (some p) → p ∈ keys t
  rooted : ∀ {x}, x ∈ keys t → ∃ n, Depth t x n

/-- What has a depth is in the table. -/
lemma Depth.mem_keys (h : Depth t x n) : x ∈ keys t := by
  cases h with
  | root h => exact mem_keys_of_kids h
  | child h _ => exact mem_keys_of_kids h

/-- There is one depth. -/
lemma Depth.unique (hnd : (keys t).Nodup) (h : Depth t x n) : ∀ {m}, Depth t x m → n = m := by
  induction h with
  | root h =>
    intro m h'
    cases h' with
    | root _ => rfl
    | child hc _ => exact absurd (kids_unique hnd h hc) (by simp)
  | child h _ ih =>
    intro m h'
    cases h' with
    | root hr => exact absurd (kids_unique hnd hr h) (by simp)
    | child hc hp =>
      obtain rfl : _ = _ := Option.some.inj (kids_unique hnd h hc)
      rw [ih hp]

/-- Every smaller depth occurs on the way up. -/
lemma Depth.exists_of_le (h : Depth t x n) : ∀ {m}, m ≤ n → ∃ y, Depth t y m := by
  induction h with
  | root h =>
    intro m hm
    obtain rfl : m = 0 := by omega
    exact ⟨_, .root h⟩
  | @child x p n h hp ih =>
    intro m hm
    rcases Nat.lt_or_ge m (n + 1) with hlt | hge
    · exact ih (by omega)
    · obtain rfl : m = n + 1 := by omega
      exact ⟨x, .child h hp⟩

/-- The way up is shorter than the table.

**Proof sketch.** Choose a key of each depth up to `n`: these keys are distinct. -/
lemma Depth.lt_length (hnd : (keys t).Nodup) (h : Depth t x n) : n < t.length := by
  have : Nonempty K := ⟨x⟩
  choose! f hf using fun m (hm : m ≤ n) => h.exists_of_le hm
  have hinj : ((range (n + 1)).map f).Nodup := by
    refine List.Nodup.map_on (fun a ha b hb hab => ?_) nodup_range
    rw [mem_range] at ha hb
    exact (hf a (by omega)).unique hnd (hab ▸ hf b (by omega))
  have hsub : (range (n + 1)).map f ⊆ keys t := by
    intro y hy
    obtain ⟨a, ha, rfl⟩ := mem_map.1 hy
    rw [mem_range] at ha
    exact (hf a (by omega)).mem_keys
  have hle := (hinj.subperm hsub).length_le
  simp only [length_map, length_range, keys] at hle
  omega

/-- What is below is deeper. -/
lemma Below.depth (h : Below t x y) (hx : Depth t x d) : ∃ m, Depth t y (d + m) := by
  induction h with
  | refl => exact ⟨0, hx⟩
  | step _ hy ih =>
    obtain ⟨m, hm⟩ := ih
    exact ⟨m + 1, .child hy hm⟩

/-- Below is transitive. -/
lemma Below.trans (h : Below t x p) (h' : Below t p y) : Below t x y := by
  induction h' with
  | refl => exact h
  | step _ hy ih => exact .step ih hy

/-- A proper descendant is below a child. -/
lemma Below.cases_head (h : Below t x y) : y = x ∨ ∃ c ∈ kids t (some x), Below t c y := by
  induction h with
  | refl => exact .inl rfl
  | step _ hy ih =>
    rcases ih with rfl | ⟨c, hc, hcy⟩
    · exact .inr ⟨_, hy, .refl⟩
    · exact .inr ⟨c, hc, .step hcy hy⟩

/-- The parent is not below. -/
lemma not_below_of_kids (hF : IsForest t) (h : x ∈ kids t (some p)) : ¬ Below t x p := by
  intro hb
  obtain ⟨n, hn⟩ := hF.rooted (mem_keys_of_kids h)
  obtain ⟨m, hm⟩ := hb.depth hn
  have := (Depth.child h hm).unique hF.nodup hn
  omega

/-- **Subtrees of siblings are disjoint.** -/
lemma eq_of_below_of_below (hF : IsForest t) (hc : c ∈ kids t q) (hc' : c' ∈ kids t q)
    (h : Below t c y) : Below t c' y → c = c' := by
  induction h with
  | refl =>
    intro h'
    cases h' with
    | refl => rfl
    | step hp hcp =>
      -- `c` below its sibling `c'` would put `c'` below its own parent's child
      obtain rfl := kids_unique hF.nodup hc hcp
      exact absurd hp (not_below_of_kids hF hc')
  | @step p y hp hy ih =>
    intro h'
    cases h' with
    | refl =>
      obtain rfl := kids_unique hF.nodup hc' hy
      exact absurd hp (not_below_of_kids hF hc)
    | step hp' hy' =>
      obtain rfl : _ = _ := Option.some.inj (kids_unique hF.nodup hy hy')
      exact ih hp'

/-- **The listing of a subtree is complete** if it goes down far enough. -/
lemma mem_below_of_depth (hF : IsForest t) :
    ∀ {n x d}, Depth t x d → t.length ≤ n + d + 1 → (y ∈ below t n x ↔ Below t x y) := by
  intro n
  induction n with
  | zero =>
    intro x d hx hlen
    simp only [below, mem_singleton]
    constructor
    · rintro rfl; exact .refl
    · intro h
      rcases h.cases_head with rfl | ⟨c, hc, -⟩
      · rfl
      · have := (Depth.child hc hx).lt_length hF.nodup
        omega
  | succ n ih =>
    intro x d hx hlen
    simp only [below, mem_cons, mem_flatMap]
    constructor
    · rintro (rfl | ⟨c, hc, hy⟩)
      · exact .refl
      · exact (Below.step .refl hc).trans ((ih (.child hc hx) (by omega)).1 hy)
    · intro h
      rcases h.cases_head with rfl | ⟨c, hc, hcy⟩
      · exact .inl rfl
      · exact .inr ⟨c, hc, (ih (.child hc hx) (by omega)).2 hcy⟩

/-- The list has all that is below. -/
lemma mem_below (hF : IsForest t) (hx : x ∈ keys t) : y ∈ below t t.length x ↔ Below t x y := by
  obtain ⟨d, hd⟩ := hF.rooted hx
  exact mem_below_of_depth hF hd (by omega)

/-- And nothing else. -/
lemma below_of_mem : ∀ {n x}, y ∈ below t n x → Below t x y
  | 0, x, h => by rw [mem_singleton.1 h]; exact .refl
  | n + 1, x, h => by
    rcases mem_cons.1 h with rfl | h
    · exact .refl
    · obtain ⟨c, hc, hy⟩ := mem_flatMap.1 h
      exact (Below.step .refl hc).trans (below_of_mem hy)

/-- No key twice below another. -/
lemma nodup_below (hF : IsForest t) : ∀ n x, (below t n x).Nodup
  | 0, x => nodup_singleton x
  | n + 1, x => by
    refine nodup_cons.2 ⟨fun h => ?_, ?_⟩
    · obtain ⟨c, hc, hx⟩ := mem_flatMap.1 h
      exact not_below_of_kids hF hc (below_of_mem hx)
    · refine nodup_flatMap.2 ⟨fun c _ => nodup_below hF n c, ?_⟩
      refine (nodup_kids hF.nodup).imp_of_mem fun {c c'} hc hc' hne => ?_
      exact fun y hy hy' =>
        hne (eq_of_below_of_below hF hc hc' (below_of_mem hy) (below_of_mem hy'))

/-- What is below is in the table. -/
lemma Below.mem_keys (h : Below t x y) (hx : x ∈ keys t) : y ∈ keys t := by
  cases h with
  | refl => exact hx
  | step _ hy => exact mem_keys_of_kids hy

/-- Children are below. -/
lemma mem_below_of_kids (h : c ∈ kids t (some k)) (hn : 0 < n) : c ∈ below t n k := by
  obtain ⟨m, rfl⟩ := Nat.exists_eq_succ_of_ne_zero hn.ne'
  refine mem_cons_of_mem _ (mem_flatMap.2 ⟨c, h, ?_⟩)
  cases m with
  | zero => exact mem_singleton.2 rfl
  | succ m => exact mem_cons_self

/-- A key is the first below itself. -/
lemma below_eq_cons (t : Table K V) (n : ℕ) (k : K) : below t n k = k :: (below t n k).tail := by
  cases n <;> rfl

/-- The root above a key. -/
lemma Depth.exists_root (h : Depth t x n) : ∃ y ∈ kids t none, Below t y x := by
  induction h with
  | root h => exact ⟨_, h, .refl⟩
  | child h _ ih =>
    obtain ⟨y, hy, hb⟩ := ih
    exact ⟨y, hy, .step hb h⟩

/-- Not more than all keys are below. -/
lemma length_below_le (hF : IsForest t) (hx : x ∈ keys t) (n : ℕ) :
    (below t n x).length ≤ t.length := by
  have hsub : below t n x ⊆ keys t := fun y hy => (below_of_mem hy).mem_keys hx
  have := ((nodup_below hF n x).subperm hsub).length_le
  rwa [keys, length_map] at this

/-! ### Values after an operation -/

/-- The value of a row. -/
lemma val?_of_mem (hnd : (keys t).Nodup) (hr : r ∈ t) : val? t r.key = some r.val := by
  rw [val?, (row?_eq_some hnd).2 ⟨hr, rfl⟩]
  rfl

/-- There is none without the key. -/
lemma val?_eq_none : val? t k = none ↔ k ∉ keys t := by
  rw [val?, Option.map_eq_none_iff, row?_eq_none]

/-- The values after adding a key. -/
lemma val?_add (hk : k ∉ keys t) : val? (add t k q v) x = if x = k then some v else val? t x := by
  rw [val?, row?, add, find?_append]
  by_cases hx : x = k
  · subst hx
    have hnone : t.find? (fun r => r.key = x) = none := row?_eq_none.2 hk
    rw [hnone]
    simp
  · rw [if_neg hx, val?, row?]
    simp [Ne.symm hx]

/-- The values after a change. -/
lemma val?_modify : val? (modify t k f) x = if x = k then (val? t k).map f else val? t x := by
  induction t with
  | nil => simp [val?, row?, modify]
  | cons r t ih =>
    simp only [val?, row?, modify] at ih ⊢
    by_cases hr : r.key = k <;> by_cases hx : x = k <;> by_cases hrx : r.key = x <;> simp_all

/-- The values that are left. -/
lemma val?_filter : val? (t.filter fun r => P r.key) x = if P x then val? t x else none := by
  induction t with
  | nil => simp [val?, row?]
  | cons r t ih =>
    simp only [val?, row?] at ih ⊢
    by_cases hr : P r.key <;> by_cases hx : P x <;> by_cases hrx : r.key = x <;> simp_all

/-- The values after a removal. -/
lemma val?_remove : val? (remove t k) x = if x ∈ below t t.length k then none else val? t x := by
  rw [remove, val?_filter fun x => x ∉ below t t.length k]
  by_cases hx : x ∈ below t t.length k <;> simp

/-- A move keeps the values. -/
lemma val?_move (hnd : (keys t).Nodup) : val? (move t k q) x = val? t x := by
  rcases hk : row? t k with _ | r
  · rw [move, hk]
  · obtain ⟨hr, hrk⟩ := (row?_eq_some hnd).1 hk
    have hout : k ∉ keys (t.filter fun r => r.key ≠ k) := by
      rw [keys_filter fun x => x ≠ k]
      simp
    rw [move_eq hk, ← hrk]
    rw [← hrk] at hout
    refine (val?_add hout).trans ?_
    rw [val?_filter fun x => x ≠ r.key]
    by_cases hx : x = r.key
    · rw [if_pos hx, hx, val?_of_mem hnd hr]
    · simp [hx]

/-- Adopting keeps the values. -/
lemma val?_adopt (hnd : (keys t).Nodup) : val? (adopt t k p) x = val? t x := by
  rw [adopt]
  split_ifs
  · rfl
  · exact val?_move hnd

/-! ### What is left after a removal -/

/-- A row outside of a subtree stays when the subtree is removed. -/
lemma row?_remove_of_not_below (h : ¬ Below t k x) : row? (remove t k) x = row? t x := by
  rw [row?, remove, find?_filter]
  congr 1
  funext r
  by_cases hrx : r.key = x
  · simpa [hrx] using fun hb => h (below_of_mem hb)
  · simp [hrx]

/-- All that is below goes. -/
lemma mem_keys_remove (hF : IsForest t) (hk : k ∈ keys t) :
    x ∈ keys (remove t k) ↔ x ∈ keys t ∧ ¬ Below t k x := by
  rw [keys_remove, mem_filter, decide_eq_true_eq, mem_below hF hk]

/-- The children that stay. -/
lemma mem_kids_remove (hF : IsForest t) (hk : k ∈ keys t) :
    x ∈ kids (remove t k) q ↔ x ∈ kids t q ∧ ¬ Below t k x := by
  rw [kids_remove, mem_filter, decide_eq_true_eq, mem_below hF hk]

/-- The parent of a removed node loses exactly that child. -/
lemma kids_remove_parent (hF : IsForest t) (hk : k ∈ kids t q) :
    kids (remove t k) q = (kids t q).filter fun x => x ≠ k := by
  rw [kids_remove]
  refine filter_congr fun x hx => ?_
  rw [decide_eq_decide, mem_below hF (mem_keys_of_kids hk), not_iff_not]
  exact ⟨fun hb => (eq_of_below_of_below hF hk hx hb .refl).symm, fun heq => heq ▸ .refl⟩

/-- Any other place that stays keeps all its children. -/
lemma kids_remove_of_not_below (hF : IsForest t) (hk : k ∈ kids t q) (hne : q' ≠ q)
    (hq' : ∀ p, q' = some p → ¬ Below t k p) : kids (remove t k) q' = kids t q' := by
  rw [kids_remove, filter_eq_self]
  intro x hx
  rw [decide_eq_true_eq, mem_below hF (mem_keys_of_kids hk)]
  intro hb
  cases hb with
  | refl => exact hne (kids_unique hF.nodup hx hk)
  | step hp hx' => exact hq' _ (kids_unique hF.nodup hx hx') hp

/-- Subtrees, seen from a table without a subtree: what is not in that subtree is below what it was
below. -/
lemma below_remove_iff (hF : IsForest t) (hk : k ∈ keys t) (hy : ¬ Below t k y) :
    Below (remove t k) x y ↔ Below t x y := by
  constructor
  · intro h
    induction h with
    | refl => exact .refl
    | step _ hkid ih =>
      obtain ⟨hkid, -⟩ := (mem_kids_remove hF hk).1 hkid
      exact .step (ih fun hb => hy (.step hb hkid)) hkid
  · intro h
    induction h with
    | refl => exact .refl
    | step _ hkid ih =>
      exact .step (ih fun hb => hy (.step hb hkid)) ((mem_kids_remove hF hk).2 ⟨hkid, hy⟩)

/-- Two nodes of the same depth with a common descendant are the same. -/
lemma eq_of_below_of_depth (hnd : (keys t).Nodup) (hx : Depth t x d) (hy : Depth t y d)
    (h : Below t x c) : Below t y c → x = y := by
  induction h with
  | refl =>
    intro h'
    cases h' with
    | refl => rfl
    | step hp hkid =>
      obtain ⟨m, hm⟩ := hp.depth hy
      have := (Depth.child hkid hm).unique hnd hx
      omega
  | step hp hkid ih =>
    intro h'
    cases h' with
    | refl =>
      obtain ⟨m, hm⟩ := hp.depth hx
      have := (Depth.child hkid hm).unique hnd hy
      omega
    | step hp' hkid' =>
      obtain rfl := Option.some.inj (kids_unique hnd hkid hkid')
      exact ih hp'

/-- The table `t'` is `t` without the subtrees of some nodes. -/
structure Removed (t t' : Table K V) (ks : List K) : Prop where
  keys : ∀ x, x ∈ keys t' ↔ x ∈ keys t ∧ ∀ k ∈ ks, ¬ Below t k x
  rows : ∀ x, (∀ k ∈ ks, ¬ Below t k x) → row? t' x = row? t x

/-- One removal. -/
lemma removed_one (hF : IsForest t) (hk : k ∈ keys t) : Removed t (remove t k) [k] where
  keys x := by rw [mem_keys_remove hF hk, forall_mem_singleton]
  rows x hx := row?_remove_of_not_below (hx k mem_cons_self)

/-- Two removals. -/
lemma removed_two (hF : IsForest t) (hF' : IsForest (remove t x)) (hx : x ∈ keys t)
    (hy : y ∈ keys (remove t x)) : Removed t (remove (remove t x) y) [x, y] where
  keys z := by
    rw [mem_keys_remove hF' hy, mem_keys_remove hF hx, forall_mem_cons, forall_mem_singleton,
      and_assoc]
    refine and_congr_right fun _ => and_congr_right fun hz => ?_
    rw [below_remove_iff hF hx hz]
  rows z hz := by
    have hzx := hz x mem_cons_self
    rw [row?_remove_of_not_below, row?_remove_of_not_below hzx]
    rw [below_remove_iff hF hx hzx]
    exact hz y (by simp)

/-! ### Forests stay forests -/

namespace IsForest

/-- No trees. -/
lemma nil : IsForest ([] : Table K V) :=
  ⟨nodup_nil, fun h => by simp [kids] at h, fun h => by simp [keys] at h⟩

variable (hF : IsForest t)

include hF

/-- Only keys and children matter. -/
lemma congr {V' : Type} {t' : Table K V'} (hkeys : keys t' = keys t)
    (hkids : ∀ q, kids t' q = kids t q) : IsForest t' where
  nodup := hkeys ▸ hF.nodup
  closed := fun h => by rw [hkeys]; rw [hkids] at h; exact hF.closed h
  rooted := fun {x} hx => by
    rw [hkeys] at hx
    obtain ⟨n, hn⟩ := hF.rooted hx
    refine ⟨n, ?_⟩
    induction hn with
    | root h => exact .root (by rw [hkids]; exact h)
    | child h hp ih => exact .child (by rw [hkids]; exact h) (ih hp.mem_keys)

/-- A new value keeps a forest. -/
lemma modify (f : V → V) : IsForest (modify t k f) :=
  hF.congr (keys_modify f) fun _ => kids_modify f

/-- Adding below a key keeps a forest. -/
lemma add (hk : k ∉ keys t) (hq : ∀ p, q = some p → p ∈ keys t) :
    IsForest (add t k q v) := by
  have hmono : ∀ {x n}, Depth t x n → Depth (Hierarchy.add t k q v) x n := by
    intro x n h
    induction h with
    | root h => exact .root (by rw [kids_add]; exact mem_append_left _ h)
    | child h _ ih => exact .child (by rw [kids_add]; exact mem_append_left _ h) ih
  have hnew : k ∈ kids (Hierarchy.add t k q v) q := by rw [kids_add]; simp
  refine ⟨?_, fun {x p} h => ?_, fun {x} hx => ?_⟩
  · rw [keys_add, nodup_append]
    exact ⟨hF.nodup, nodup_singleton k, fun a ha b hb hab => hk (by simp_all)⟩
  · rw [keys_add, mem_append]
    rw [kids_add, mem_append] at h
    rcases h with h | h
    · exact .inl (hF.closed h)
    · split at h
      · exact .inl (hq p ‹_›)
      · simp at h
  · rw [keys_add, mem_append, mem_singleton] at hx
    rcases hx with hx | rfl
    · obtain ⟨n, hn⟩ := hF.rooted hx
      exact ⟨n, hmono hn⟩
    · rcases q with _ | p
      · exact ⟨0, .root hnew⟩
      · obtain ⟨n, hn⟩ := hF.rooted (hq p rfl)
        exact ⟨n + 1, .child hnew (hmono hn)⟩

/-- So does leaving out whole subtrees. -/
lemma filter (P : K → Bool) (hP : ∀ {x p}, x ∈ kids t (some p) → P x → P p) :
    IsForest (t.filter fun r => P r.key) := by
  refine ⟨?_, fun {x p} h => ?_, fun {x} hx => ?_⟩
  · rw [keys_filter]
    exact hF.nodup.filter _
  · rw [kids_filter, mem_filter] at h
    rw [keys_filter, mem_filter]
    exact ⟨hF.closed h.1, hP h.1 h.2⟩
  · rw [keys_filter, mem_filter] at hx
    obtain ⟨n, hn⟩ := hF.rooted hx.1
    refine ⟨n, ?_⟩
    have hPx := hx.2
    clear hx
    induction hn with
    | root h => exact .root (by rw [kids_filter]; exact mem_filter.2 ⟨h, hPx⟩)
    | child h _ ih =>
      exact .child (by rw [kids_filter]; exact mem_filter.2 ⟨h, hPx⟩) (ih (hP h hPx))

/-- **Removing a subtree.** -/
lemma remove (hk : k ∈ keys t) : IsForest (remove t k) := by
  refine hF.filter (fun x => x ∉ below t t.length k) fun {x p} hx hout => ?_
  simp only [decide_eq_true_eq, mem_below hF hk] at hout ⊢
  exact fun hp => hout (.step hp hx)

/-- **Moving a subtree** to a parent outside of it.

**Proof sketch.** Ways up that do not pass the moved node stay, in particular the one from the new
parent. So the moved node has a finite way up. -/
lemma move (hk : k ∈ keys t)
    (hq : ∀ p, q = some p → p ∈ keys t ∧ ¬ Below t k p) : IsForest (move t k q) := by
  have hkids : ∀ {x q'}, x ≠ k → x ∈ kids t q' → x ∈ kids (Hierarchy.move t k q) q' := by
    intro x q' hne hx
    rw [kids_move hF.nodup hk]
    exact mem_append_left _ (mem_filter.2 ⟨hx, by simpa using hne⟩)
  have hout : ∀ {x n}, Depth t x n → ¬ Below t k x → Depth (Hierarchy.move t k q) x n := by
    intro x n h
    induction h with
    | root h => exact fun hb => .root (hkids (fun hx => hb (hx ▸ .refl)) h)
    | child h _ ih =>
      exact fun hb => .child (hkids (fun hx => hb (hx ▸ .refl)) h) (ih fun hp => hb (.step hp h))
  have hself : ∃ n, Depth (Hierarchy.move t k q) k n := by
    have hnew : k ∈ kids (Hierarchy.move t k q) q := by rw [kids_move hF.nodup hk]; simp
    rcases q with _ | p
    · exact ⟨0, .root hnew⟩
    · obtain ⟨hp, hpb⟩ := hq p rfl
      obtain ⟨n, hn⟩ := hF.rooted hp
      exact ⟨n + 1, .child hnew (hout hn hpb)⟩
  have hin : ∀ {x}, Below t k x → ∃ n, Depth (Hierarchy.move t k q) x n := by
    intro x h
    induction h with
    | refl => exact hself
    | @step p y hp hy ih =>
      obtain ⟨n, hn⟩ := ih
      refine ⟨n + 1, .child (hkids ?_ hy) hn⟩
      rintro rfl
      exact not_below_of_kids hF hy hp
  refine ⟨?_, fun {x p} h => ?_, fun {x} hx => ?_⟩
  · rw [keys_move hF.nodup hk, nodup_append]
    refine ⟨hF.nodup.filter _, nodup_singleton k, fun a ha b hb hab => ?_⟩
    rw [mem_singleton] at hb
    simpa [hab, hb] using (mem_filter.1 ha).2
  · have hp : p ∈ keys t := by
      rw [kids_move hF.nodup hk, mem_append, mem_filter] at h
      rcases h with h | h
      · exact hF.closed h.1
      · split at h
        · exact (hq p ‹_›).1
        · simp at h
    rw [keys_move hF.nodup hk, mem_append, mem_filter, mem_singleton]
    by_cases hpk : p = k
    · exact .inr hpk
    · exact .inl ⟨hp, by simpa using hpk⟩
  · have hx' : x ∈ keys t := by
      rw [keys_move hF.nodup hk, mem_append, mem_filter, mem_singleton] at hx
      rcases hx with hx | rfl
      · exact hx.1
      · exact hk
    by_cases hb : Below t k x
    · exact hin hb
    · obtain ⟨n, hn⟩ := hF.rooted hx'
      exact ⟨n, hout hn hb⟩

/-- **A node that is adopted** by a node that is not below it. -/
lemma adopt (hk : k ∈ keys t) (hp : p ∈ keys t) (hb : ¬ Below t k p) :
    IsForest (adopt t k p) := by
  rw [Hierarchy.adopt]
  split_ifs
  · exact hF
  · refine hF.move hk fun p' hp' => ?_
    obtain rfl := Option.some.inj hp'
    exact ⟨hp, hb⟩

end IsForest

end Hierarchy
