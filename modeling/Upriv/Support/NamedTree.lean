import Upriv.Support.Keyed
import Mathlib.Data.List.Perm.Basic

/-!
# Trees whose nodes have names

A node is found by the names on the way to it, below the root.  The entries of a tree are
the ways to its nodes with their labels; taking a subtree away, appending one and
renaming a node change them as one expects when siblings have different names.
-/

namespace Upriv

/-- A name, a label and the children in their order. -/
inductive NamedTree (κ α : Type) where
  | node (name : κ) (label : α) (children : List (NamedTree κ α))

namespace NamedTree

variable {κ α : Type}

def name : NamedTree κ α → κ
  | node name _ _ => name

def label : NamedTree κ α → α
  | node _ label _ => label

def children : NamedTree κ α → List (NamedTree κ α)
  | node _ _ children => children

@[simp] theorem name_node (n : κ) (l : α) (cs : List (NamedTree κ α)) : (node n l cs).name = n :=
  rfl

@[simp] theorem label_node (n : κ) (l : α) (cs : List (NamedTree κ α)) :
    (node n l cs).label = l := rfl

@[simp] theorem children_node (n : κ) (l : α) (cs : List (NamedTree κ α)) :
    (node n l cs).children = cs := rfl

/-- Induction with the hypothesis for every child. -/
@[elab_as_elim]
theorem induction {P : NamedTree κ α → Prop}
    (node : ∀ n l cs, (∀ c ∈ cs, P c) → P (node n l cs)) (t : NamedTree κ α) : P t := by
  refine @NamedTree.rec κ α P (fun cs => ∀ c ∈ cs, P c) node (List.forall_mem_nil _) ?_ t
  intro c cs hc hcs
  exact List.forall_mem_cons.mpr ⟨hc, hcs⟩

/-- The same node with other children. -/
def mapChildren (f : List (NamedTree κ α) → List (NamedTree κ α)) (t : NamedTree κ α) :
    NamedTree κ α :=
  node t.name t.label (f t.children)

@[simp] theorem name_mapChildren (f : List (NamedTree κ α) → List (NamedTree κ α))
    (t : NamedTree κ α) : (t.mapChildren f).name = t.name := rfl

@[simp] theorem label_mapChildren (f : List (NamedTree κ α) → List (NamedTree κ α))
    (t : NamedTree κ α) : (t.mapChildren f).label = t.label := rfl

@[simp] theorem children_mapChildren (f : List (NamedTree κ α) → List (NamedTree κ α))
    (t : NamedTree κ α) : (t.mapChildren f).children = f t.children := rfl

def rename (k : κ) (t : NamedTree κ α) : NamedTree κ α := node k t.label t.children

section Find

variable [DecidableEq κ]

/-- The node below the names, through the first child of each name. -/
def find : List κ → NamedTree κ α → Option (NamedTree κ α)
  | [], t => some t
  | k :: ks, t => (t.children.find? (name · = k)).bind (find ks)

/-- Changes the first child of the name. -/
def modifyChild (k : κ) (f : NamedTree κ α → NamedTree κ α) :
    List (NamedTree κ α) → List (NamedTree κ α)
  | [] => []
  | c :: cs => if c.name = k then f c :: cs else c :: modifyChild k f cs

/-- Changes the node that `find` finds. -/
def modifyAt (f : NamedTree κ α → NamedTree κ α) : List κ → NamedTree κ α → NamedTree κ α
  | [], t => f t
  | k :: ks, t => t.mapChildren (modifyChild k (modifyAt f ks))

def removeChild (k : κ) (t : NamedTree κ α) : NamedTree κ α :=
  t.mapChildren (List.filter (name · ≠ k))

omit [DecidableEq κ] in
def appendChild (c t : NamedTree κ α) : NamedTree κ α := t.mapChildren (· ++ [c])

variable {k k' : κ} {ks ls : List κ} {t s c : NamedTree κ α} {cs : List (NamedTree κ α)}
  {f g : NamedTree κ α → NamedTree κ α}

theorem find_cons_eq_some :
    find (k :: ks) t = some s ↔
      ∃ c, t.children.find? (name · = k) = some c ∧ find ks c = some s := by
  rw [find, Option.bind_eq_some_iff]

theorem find_append (ks ls : List κ) (t : NamedTree κ α) :
    find (ks ++ ls) t = (find ks t).bind (find ls) := by
  induction ks generalizing t with
  | nil => rfl
  | cons k ks ih =>
    rw [List.cons_append, find, find]
    cases t.children.find? (name · = k) with
    | none => rfl
    | some c => exact ih c

theorem find?_name_cons (k : κ) (c : NamedTree κ α) (cs : List (NamedTree κ α)) :
    (c :: cs).find? (name · = k) = if c.name = k then some c else cs.find? (name · = k) := by
  rw [List.find?_cons]
  by_cases h : c.name = k
  · rw [if_pos h, decide_eq_true h]
  · rw [if_neg h, decide_eq_false h]

theorem name_of_find?_eq_some (h : cs.find? (name · = k) = some c) : c.name = k := by
  have hname := List.find?_some h
  exact of_decide_eq_true hname

/-- The way to a node goes through nodes. -/
theorem exists_find_of_begin (h : find ls t = some s) (hbegin : ks <+: ls) :
    ∃ u, find ks t = some u := by
  obtain ⟨rest, rfl⟩ := hbegin
  rw [find_append] at h
  obtain ⟨u, hu, -⟩ := Option.bind_eq_some_iff.mp h
  exact ⟨u, hu⟩

theorem name_of_find_append_singleton (h : find (ks ++ [k]) t = some s) : s.name = k := by
  rw [find_append] at h
  obtain ⟨p, -, hs⟩ := Option.bind_eq_some_iff.mp h
  obtain ⟨c, hc, hcs⟩ := find_cons_eq_some.mp hs
  cases hcs
  exact name_of_find?_eq_some hc

theorem modifyAt_append (ks ls : List κ) (t : NamedTree κ α) :
    modifyAt f (ks ++ ls) t = modifyAt (modifyAt f ls) ks t := by
  induction ks generalizing t with
  | nil => rfl
  | cons k ks ih =>
    have hfun : modifyAt f (ks ++ ls) = modifyAt (modifyAt f ls) ks := funext ih
    rw [List.cons_append, modifyAt, modifyAt, hfun]

theorem modifyChild_modifyChild (hf : ∀ c, (f c).name = c.name) (k : κ)
    (cs : List (NamedTree κ α)) :
    modifyChild k g (modifyChild k f cs) = modifyChild k (g ∘ f) cs := by
  induction cs with
  | nil => rfl
  | cons c cs ih =>
    rw [modifyChild, modifyChild]
    split
    · rename_i hname
      rw [modifyChild, if_pos ((hf c).trans hname)]
      rfl
    · rename_i hname
      rw [modifyChild, if_neg hname, ih]

theorem modifyChild_id (k : κ) (cs : List (NamedTree κ α)) : modifyChild k id cs = cs := by
  induction cs with
  | nil => rfl
  | cons c cs ih =>
    rw [modifyChild, ih]
    split <;> rfl

theorem modifyAt_id (ks : List κ) : modifyAt (id : NamedTree κ α → NamedTree κ α) ks = id := by
  induction ks with
  | nil => rfl
  | cons k ks ih =>
    funext t
    cases t
    rw [modifyAt, ih, mapChildren, modifyChild_id]
    rfl

theorem name_modifyAt (hf : ∀ c, (f c).name = c.name) (ks : List κ) (t : NamedTree κ α) :
    (modifyAt f ks t).name = t.name := by
  cases ks with
  | nil => exact hf t
  | cons k ks => rfl

theorem label_modifyAt (hf : ∀ c, (f c).label = c.label) (ks : List κ) (t : NamedTree κ α) :
    (modifyAt f ks t).label = t.label := by
  cases ks with
  | nil => exact hf t
  | cons k ks => rfl

theorem modifyAt_modifyAt (hf : ∀ c, (f c).name = c.name) (ks : List κ) (t : NamedTree κ α) :
    modifyAt g ks (modifyAt f ks t) = modifyAt (g ∘ f) ks t := by
  induction ks generalizing t with
  | nil => rfl
  | cons k ks ih =>
    have hfun : modifyAt g ks ∘ modifyAt f ks = modifyAt (g ∘ f) ks := funext ih
    rw [modifyAt, modifyAt, modifyAt, ← hfun, mapChildren, children_mapChildren,
      modifyChild_modifyChild (name_modifyAt hf ks)]
    rfl

theorem map_name_modifyChild (hf : ∀ c, (f c).name = c.name) (k : κ)
    (cs : List (NamedTree κ α)) : (modifyChild k f cs).map name = cs.map name := by
  induction cs with
  | nil => rfl
  | cons c cs ih =>
    rw [modifyChild]
    split
    · rw [List.map_cons, List.map_cons, hf]
    · rw [List.map_cons, List.map_cons, ih]

theorem find?_modifyChild_self (hf : ∀ c, (f c).name = c.name) (k : κ)
    (cs : List (NamedTree κ α)) :
    (modifyChild k f cs).find? (name · = k) = (cs.find? (name · = k)).map f := by
  induction cs with
  | nil => rfl
  | cons c cs ih =>
    rw [modifyChild, find?_name_cons]
    split
    · rename_i hname
      rw [find?_name_cons, if_pos ((hf c).trans hname)]
      rfl
    · rename_i hname
      rw [find?_name_cons, if_neg hname, ih]

theorem find?_modifyChild_of_ne (hf : ∀ c, (f c).name = c.name) (hne : k' ≠ k)
    (cs : List (NamedTree κ α)) :
    (modifyChild k f cs).find? (name · = k') = cs.find? (name · = k') := by
  induction cs with
  | nil => rfl
  | cons c cs ih =>
    rw [modifyChild, find?_name_cons]
    split
    · rename_i hname
      have hother : c.name ≠ k' := hname ▸ hne.symm
      rw [find?_name_cons, hf, if_neg hother, if_neg hother]
    · rw [find?_name_cons, ih]

theorem find?_filter_of_ne (hne : k' ≠ k) (cs : List (NamedTree κ α)) :
    (cs.filter (name · ≠ k)).find? (name · = k') = cs.find? (name · = k') := by
  induction cs with
  | nil => rfl
  | cons c cs ih =>
    rw [List.filter_cons, find?_name_cons]
    split
    · rw [find?_name_cons, ih]
    · rename_i hname
      have hk : c.name = k := by simpa using hname
      rw [ih, if_neg (hk ▸ hne.symm)]

/-! ## Finding in a changed tree -/

theorem find_modifyAt_append (hf : ∀ c, (f c).name = c.name) (ks ls : List κ)
    (t : NamedTree κ α) :
    find ks (modifyAt f (ks ++ ls) t) = (find ks t).map (modifyAt f ls) := by
  induction ks generalizing t with
  | nil => rfl
  | cons k ks ih =>
    rw [List.cons_append, modifyAt, find, find, children_mapChildren,
      find?_modifyChild_self (name_modifyAt hf (ks ++ ls))]
    cases t.children.find? (name · = k) with
    | none => rfl
    | some c => exact ih c

theorem find_modifyAt_self (hf : ∀ c, (f c).name = c.name) (ks : List κ)
    (t : NamedTree κ α) : find ks (modifyAt f ks t) = (find ks t).map f := by
  have h := find_modifyAt_append hf ks [] t
  rwa [List.append_nil] at h

/-- Below the changed node. -/
theorem find_append_modifyAt (hf : ∀ c, (f c).name = c.name) (ks ls : List κ)
    (t : NamedTree κ α) :
    find (ks ++ ls) (modifyAt f ks t) = (find ks t).bind fun s => find ls (f s) := by
  rw [find_append, find_modifyAt_self hf, Option.bind_map]
  rfl

/-- Neither above nor below the changed node. -/
theorem find_modifyAt_of_apart (hf : ∀ c, (f c).name = c.name) (h : ¬ ks <+: ls)
    (h' : ¬ ls <+: ks) (t : NamedTree κ α) : find ls (modifyAt f ks t) = find ls t := by
  induction ks generalizing ls t with
  | nil => exact absurd (List.nil_prefix) h
  | cons k ks ih =>
    cases ls with
    | nil => exact absurd (List.nil_prefix) h'
    | cons l ls =>
      rw [modifyAt, find, find, children_mapChildren]
      by_cases hkl : l = k
      · subst hkl
        rw [List.prefix_cons_inj] at h h'
        rw [find?_modifyChild_self (name_modifyAt hf ks)]
        cases t.children.find? (name · = l) with
        | none => rfl
        | some c => exact ih h h' c
      · rw [find?_modifyChild_of_ne (name_modifyAt hf ks) hkl]

/-! ## A node is not below itself -/

theorem sizeOf_lt_of_find (hks : ks ≠ []) (h : find ks t = some s) : sizeOf s < sizeOf t := by
  induction ks generalizing t with
  | nil => exact absurd rfl hks
  | cons k ks ih =>
    obtain ⟨c, hc, hcs⟩ := find_cons_eq_some.mp h
    have hchild : sizeOf c < sizeOf t := by
      have hmem := List.sizeOf_lt_of_mem (List.mem_of_find?_eq_some hc)
      cases t with
      | node n l cs =>
        rw [node.sizeOf_spec]
        rw [children_node] at hmem
        omega
    cases ks with
    | nil =>
      cases hcs
      exact hchild
    | cons k' ks => exact Nat.lt_trans (ih (List.cons_ne_nil k' ks) hcs) hchild

theorem find_ne_self (hks : ks ≠ []) (t : NamedTree κ α) : find ks t ≠ some t :=
  fun h => Nat.lt_irrefl _ (sizeOf_lt_of_find hks h)

end Find

end NamedTree

end Upriv
