import Upriv.Support.NamedTree

/-!
# The entries of a tree

The entries are the ways to the nodes, with their labels.  When siblings have different
names, moving a subtree replaces the beginning of the ways into it, and leaves the other
entries alone.
-/

namespace Upriv.NamedTree

variable {κ α : Type}

/-! ## A condition on every node -/

/-- A condition on a label and the names below holds of every node. -/
inductive Everywhere (P : α → List κ → Prop) : NamedTree κ α → Prop where
  | node {n : κ} {l : α} {cs : List (NamedTree κ α)} (h : P l (cs.map name))
      (hall : ∀ c ∈ cs, Everywhere P c) : Everywhere P (node n l cs)

theorem everywhere_iff {P : α → List κ → Prop} {t : NamedTree κ α} :
    Everywhere P t ↔
      P t.label (t.children.map name) ∧ ∀ c ∈ t.children, Everywhere P c := by
  constructor
  · rintro ⟨h, hall⟩
    exact ⟨h, hall⟩
  · intro h
    cases t
    exact .node h.1 h.2

theorem Everywhere.mono {P Q : α → List κ → Prop} (hPQ : ∀ l names, P l names → Q l names)
    {t : NamedTree κ α} (h : Everywhere P t) : Everywhere Q t := by
  induction h with
  | node h _ ih => exact .node (hPQ _ _ h) ih

/-- Siblings have different names. -/
def SiblingsDistinct (t : NamedTree κ α) : Prop := Everywhere (fun _ names => names.Nodup) t

section Everywhere

variable [DecidableEq κ] {P : α → List κ → Prop} {t s : NamedTree κ α} {ks : List κ}
  {f : NamedTree κ α → NamedTree κ α}

theorem Everywhere.of_find (h : Everywhere P t) (hs : find ks t = some s) : Everywhere P s := by
  induction ks generalizing t with
  | nil =>
    cases hs
    exact h
  | cons k ks ih =>
    obtain ⟨c, hc, hcs⟩ := find_cons_eq_some.mp hs
    exact ih ((everywhere_iff.mp h).2 c (List.mem_of_find?_eq_some hc)) hcs

theorem mem_modifyChild {k : κ} {cs : List (NamedTree κ α)} {b : NamedTree κ α}
    (h : b ∈ modifyChild k f cs) :
    b ∈ cs ∨ ∃ c, cs.find? (name · = k) = some c ∧ b = f c := by
  induction cs with
  | nil => exact .inl h
  | cons c cs ih =>
    rw [modifyChild] at h
    rw [find?_name_cons]
    split at h
    · rename_i hname
      rw [List.mem_cons] at h
      rcases h with rfl | h
      · exact .inr ⟨c, if_pos hname, rfl⟩
      · exact .inl (List.mem_cons_of_mem _ h)
    · rename_i hname
      rw [List.mem_cons] at h
      rcases h with rfl | h
      · exact .inl List.mem_cons_self
      · rcases ih h with hb | hb
        · exact .inl (List.mem_cons_of_mem _ hb)
        · rw [if_neg hname]
          exact .inr hb

/-- A change below a node leaves the names that the node sees. -/
theorem Everywhere.modifyAt (hf : ∀ c, (f c).name = c.name) (h : Everywhere P t)
    (hs : ∀ s, find ks t = some s → Everywhere P s → Everywhere P (f s)) :
    Everywhere P (modifyAt f ks t) := by
  induction ks generalizing t with
  | nil => exact hs t rfl h
  | cons k ks ih =>
    rw [everywhere_iff] at h
    rw [NamedTree.modifyAt, everywhere_iff, label_mapChildren, children_mapChildren,
      map_name_modifyChild (name_modifyAt hf ks)]
    refine ⟨h.1, ?_⟩
    intro b hb
    rcases mem_modifyChild hb with hb | ⟨c, hc, rfl⟩
    · exact h.2 b hb
    · refine ih (h.2 c (List.mem_of_find?_eq_some hc)) ?_
      intro s hcs
      exact hs s (find_cons_eq_some.mpr ⟨c, hc, hcs⟩)

end Everywhere

/-! ## Entries -/

/-- The ways of a subtree, from the root. -/
def under (ks : List κ) (e : List κ × α) : List κ × α := (ks ++ e.1, e.2)

mutual

/-- The way to every node, with its label. -/
def entries : NamedTree κ α → List (List κ × α)
  | node _ l cs => ([], l) :: childEntries cs

def childEntries : List (NamedTree κ α) → List (List κ × α)
  | [] => []
  | c :: cs => (entries c).map (under [c.name]) ++ childEntries cs

end

theorem entries_eq (t : NamedTree κ α) : entries t = ([], t.label) :: childEntries t.children := by
  cases t
  rw [entries, label_node, children_node]

theorem childEntries_eq (cs : List (NamedTree κ α)) :
    childEntries cs = cs.flatMap fun c => (entries c).map (under [c.name]) := by
  induction cs with
  | nil => rfl
  | cons c cs ih => rw [childEntries, ih, List.flatMap_cons]

theorem childEntries_append (cs ds : List (NamedTree κ α)) :
    childEntries (cs ++ ds) = childEntries cs ++ childEntries ds := by
  rw [childEntries_eq, childEntries_eq, childEntries_eq, List.flatMap_append]

theorem childEntries_perm {cs ds : List (NamedTree κ α)} (h : cs.Perm ds) :
    (childEntries cs).Perm (childEntries ds) := by
  rw [childEntries_eq, childEntries_eq]
  exact h.flatMap_right _

theorem under_under (ks ls : List κ) (e : List κ × α) :
    under ks (under ls e) = under (ks ++ ls) e := by
  rw [under, under, under, List.append_assoc]

theorem map_under_under (ks ls : List κ) (es : List (List κ × α)) :
    (es.map (under ls)).map (under ks) = es.map (under (ks ++ ls)) := by
  rw [List.map_map]
  exact List.map_congr_left fun e _ => under_under ks ls e

theorem map_under_nil (es : List (List κ × α)) : es.map (under []) = es :=
  List.map_id es

theorem mem_childEntries {cs : List (NamedTree κ α)} {e : List κ × α} :
    e ∈ childEntries cs ↔ ∃ c ∈ cs, ∃ e' ∈ entries c, under [c.name] e' = e := by
  rw [childEntries_eq, List.mem_flatMap]
  simp only [List.mem_map]

theorem entries_rename (k : κ) (t : NamedTree κ α) : entries (t.rename k) = entries t := by
  cases t
  rw [rename, entries, entries, label_node, children_node]

mutual

/-- The names and the labels of the nodes. -/
def nodes : NamedTree κ α → List (κ × α)
  | node n l cs => (n, l) :: childNodes cs

def childNodes : List (NamedTree κ α) → List (κ × α)
  | [] => []
  | c :: cs => nodes c ++ childNodes cs

end

theorem childNodes_eq (cs : List (NamedTree κ α)) : childNodes cs = cs.flatMap nodes := by
  induction cs with
  | nil => rfl
  | cons c cs ih => rw [childNodes, ih, List.flatMap_cons]

/-- The name of a node is the end of the way to it. -/
theorem nodes_eq (t : NamedTree κ α) :
    nodes t = (entries t).map fun e => (e.1.getLast?.getD t.name, e.2) := by
  induction t using induction with
  | node n l cs ih =>
    rw [nodes, entries, List.map_cons, childNodes_eq, childEntries_eq, List.map_flatMap]
    congr 1
    refine List.flatMap_congr fun c hc => ?_
    rw [ih c hc, List.map_map]
    refine List.map_congr_left fun e _ => ?_
    rw [Function.comp_apply, under, List.getLast?_append, List.getLast?_singleton,
      Option.getD_or]
    rfl

/-- The entries are what `find` finds. -/
theorem mem_entries_iff [DecidableEq κ] {t : NamedTree κ α} (h : SiblingsDistinct t)
    {ks : List κ} {l : α} :
    (ks, l) ∈ entries t ↔ ∃ s, find ks t = some s ∧ s.label = l := by
  induction ks generalizing t with
  | nil =>
    have hroot : ([], l) ∉ childEntries t.children := by
      rw [mem_childEntries]
      rintro ⟨c, -, e, -, he⟩
      exact List.cons_ne_nil c.name e.1 (congrArg Prod.fst he)
    rw [entries_eq, List.mem_cons, or_iff_left hroot, Prod.mk.injEq]
    constructor
    · rintro ⟨-, rfl⟩
      exact ⟨t, rfl, rfl⟩
    · rintro ⟨s, hs, rfl⟩
      cases hs
      exact ⟨rfl, rfl⟩
  | cons k ks ih =>
    have hnode := everywhere_iff.mp h
    rw [entries_eq, List.mem_cons, or_iff_right fun heq => List.cons_ne_nil k ks
      (congrArg Prod.fst heq), mem_childEntries]
    constructor
    · rintro ⟨c, hc, ⟨ls, l'⟩, he, heq⟩
      cases heq
      obtain ⟨s, hs, hlabel⟩ := (ih (hnode.2 c hc)).mp he
      have hfind := (find?_key_eq_some hnode.1).mpr ⟨hc, rfl⟩
      exact ⟨s, find_cons_eq_some.mpr ⟨c, hfind, hs⟩, hlabel⟩
    · rintro ⟨s, hs, hlabel⟩
      obtain ⟨c, hc, hcs⟩ := find_cons_eq_some.mp hs
      obtain ⟨hmem, rfl⟩ := (find?_key_eq_some hnode.1).mp hc
      exact ⟨c, hmem, (ks, l), (ih (hnode.2 c hmem)).mpr ⟨s, hcs, hlabel⟩, rfl⟩

/-! ## The entries of a changed tree -/

section Changes

variable [DecidableEq κ] {t s p : NamedTree κ α} {k : κ} {ks ls : List κ}
  {f g : NamedTree κ α → NamedTree κ α}

theorem exists_split {cs : List (NamedTree κ α)} {c : NamedTree κ α}
    (hnodup : (cs.map name).Nodup) (h : cs.find? (name · = k) = some c) :
    ∃ front back, cs = front ++ c :: back ∧ (∀ b ∈ front, b.name ≠ k) ∧
      ∀ b ∈ back, b.name ≠ k := by
  obtain ⟨hname, front, back, rfl, hfront⟩ := List.find?_eq_some_iff_append.mp h
  rw [List.map_append, List.map_cons, List.nodup_append, List.nodup_cons] at hnodup
  have hck : c.name = k := of_decide_eq_true hname
  refine ⟨front, back, rfl, ?_, ?_⟩
  · intro b hb hbk
    have hneg := hfront b hb
    rw [Bool.not_eq_true', decide_eq_false_iff_not] at hneg
    exact hneg hbk
  · rintro b hb rfl
    exact hnodup.2.1.1 (hck ▸ List.mem_map_of_mem hb)

theorem modifyChild_split {front back : List (NamedTree κ α)} {c : NamedTree κ α}
    (hfront : ∀ b ∈ front, b.name ≠ k) (hc : c.name = k) :
    modifyChild k f (front ++ c :: back) = front ++ f c :: back := by
  induction front with
  | nil => rw [List.nil_append, List.nil_append, modifyChild, if_pos hc]
  | cons b front ih =>
    rw [List.forall_mem_cons] at hfront
    rw [List.cons_append, List.cons_append, modifyChild, if_neg hfront.1, ih hfront.2]

omit [DecidableEq κ] in
theorem not_begin_of_mem_childEntries {cs : List (NamedTree κ α)} {e : List κ × α}
    (hcs : ∀ b ∈ cs, b.name ≠ k) (he : e ∈ childEntries cs) : ¬ k :: ks <+: e.1 := by
  obtain ⟨c, hc, e', -, rfl⟩ := mem_childEntries.mp he
  intro hbegin
  exact hcs c hc (List.cons_prefix_cons.mp hbegin).1.symm

/-- The entries around a node, none of which is below it, and the entries of what is put
in its place. -/
theorem exists_context (h : SiblingsDistinct t) (hs : find ks t = some s) :
    ∃ context, (∀ e ∈ context, ¬ ks <+: e.1) ∧
      ∀ f : NamedTree κ α → NamedTree κ α, (∀ c, (f c).name = c.name) →
        (entries (modifyAt f ks t)).Perm (context ++ (entries (f s)).map (under ks)) := by
  induction ks generalizing t with
  | nil =>
    cases hs
    refine ⟨[], List.forall_mem_nil _, fun f _ => ?_⟩
    rw [map_under_nil]
    exact List.Perm.refl _
  | cons k ks ih =>
    obtain ⟨c, hc, hcs⟩ := find_cons_eq_some.mp hs
    have hnode := everywhere_iff.mp h
    obtain ⟨context, hcontext, hperm⟩ := ih (hnode.2 c (List.mem_of_find?_eq_some hc)) hcs
    have hname := name_of_find?_eq_some hc
    obtain ⟨front, back, hsplit, hfront, hback⟩ := exists_split hnode.1 hc
    refine ⟨([], t.label) :: (childEntries front ++
      (childEntries back ++ context.map (under [k]))), ?_, ?_⟩
    · intro e he
      rw [List.mem_cons, List.mem_append, List.mem_append, List.mem_map] at he
      rcases he with rfl | he | he | ⟨e, he, rfl⟩
      · exact fun hbegin => absurd (List.prefix_nil.mp hbegin) (List.cons_ne_nil k ks)
      · exact not_begin_of_mem_childEntries hfront he
      · exact not_begin_of_mem_childEntries hback he
      · intro hbegin
        exact hcontext e he (List.cons_prefix_cons.mp hbegin).2
    · intro f hf
      rw [modifyAt, entries_eq, label_mapChildren, children_mapChildren, hsplit,
        modifyChild_split hfront hname, childEntries_append, childEntries,
        name_modifyAt hf, hname, List.cons_append]
      refine List.Perm.cons _ ?_
      rw [List.append_assoc]
      refine List.Perm.append_left _ ?_
      have hchild := (hperm f hf).map (under [k])
      rw [List.map_append, map_under_under] at hchild
      refine (List.perm_append_comm.trans (List.Perm.append_left _ hchild)).trans ?_
      rw [List.append_assoc]
      exact List.Perm.refl _

/-- What stands at a node decides the entries of the tree. -/
theorem entries_modifyAt_congr (h : SiblingsDistinct t) (hs : find ks t = some s)
    (hf : ∀ c, (f c).name = c.name) (hg : ∀ c, (g c).name = c.name)
    (hfg : (entries (f s)).Perm (entries (g s))) :
    (entries (modifyAt f ks t)).Perm (entries (modifyAt g ks t)) := by
  obtain ⟨context, -, hperm⟩ := exists_context h hs
  refine (hperm f hf).trans (List.Perm.trans ?_ (hperm g hg).symm)
  exact List.Perm.append_left _ (hfg.map _)

/-- An appended child brings its entries. -/
theorem entries_appendAt (h : SiblingsDistinct t) (hp : find ks t = some p) :
    (entries (modifyAt (appendChild s) ks t)).Perm
      (entries t ++ (entries s).map (under (ks ++ [s.name]))) := by
  obtain ⟨context, -, hperm⟩ := exists_context h hp
  have hold := hperm id fun _ => rfl
  rw [modifyAt_id, id, id] at hold
  refine (hperm (appendChild s) fun _ => rfl).trans ?_
  refine List.Perm.trans ?_ (List.Perm.append_right _ hold.symm)
  rw [List.append_assoc]
  refine List.Perm.append_left _ ?_
  rw [entries_eq, entries_eq, appendChild, label_mapChildren, children_mapChildren,
    childEntries_append, childEntries, childEntries, List.append_nil, ← List.cons_append,
    List.map_append, map_under_under]

theorem filter_split {front back : List (NamedTree κ α)} {c : NamedTree κ α}
    (hfront : ∀ b ∈ front, b.name ≠ k) (hc : c.name = k) (hback : ∀ b ∈ back, b.name ≠ k) :
    (front ++ c :: back).filter (name · ≠ k) = front ++ back := by
  have hkept : ∀ cs : List (NamedTree κ α), (∀ b ∈ cs, b.name ≠ k) →
      cs.filter (name · ≠ k) = cs := by
    intro cs hcs
    rw [List.filter_eq_self]
    intro b hb
    exact decide_eq_true (hcs b hb)
  rw [List.filter_append, hkept front hfront, List.filter_cons_of_neg (by simp [hc]),
    hkept back hback]

/-- A subtree that is taken away takes the entries below it along. -/
theorem entries_removeAt (h : SiblingsDistinct t) (hs : find (ks ++ [k]) t = some s) :
    (entries t).Perm (entries (modifyAt (removeChild k) ks t) ++
        (entries s).map (under (ks ++ [k]))) ∧
      ∀ e ∈ entries (modifyAt (removeChild k) ks t), ¬ ks ++ [k] <+: e.1 := by
  rw [find_append] at hs
  obtain ⟨p, hp, hps⟩ := Option.bind_eq_some_iff.mp hs
  obtain ⟨c, hc, hcs⟩ := find_cons_eq_some.mp hps
  cases hcs
  have hname := name_of_find?_eq_some hc
  obtain ⟨front, back, hsplit, hfront, hback⟩ :=
    exists_split (everywhere_iff.mp (h.of_find hp)).1 hc
  have hremoved : entries (removeChild k p) =
      ([], p.label) :: (childEntries front ++ childEntries back) := by
    rw [removeChild, entries_eq, label_mapChildren, children_mapChildren, hsplit,
      filter_split hfront hname hback, childEntries_append]
  obtain ⟨context, hcontext, hperm⟩ := exists_context h hp
  have hold := hperm id fun _ => rfl
  rw [modifyAt_id, id, id] at hold
  have hnew := hperm (removeChild k) fun _ => rfl
  constructor
  · refine hold.trans (List.Perm.trans ?_ (List.Perm.append_right _ hnew.symm))
    rw [List.append_assoc, ← map_under_under, ← List.map_append]
    refine List.Perm.append_left _ (List.Perm.map _ ?_)
    rw [hremoved, entries_eq, hsplit, childEntries_append, childEntries, hname, List.cons_append,
      List.append_assoc]
    exact List.Perm.cons _ (List.Perm.append_left _ List.perm_append_comm)
  · intro e he
    have hmem := hnew.mem_iff.mp he
    rw [List.mem_append, List.mem_map] at hmem
    rcases hmem with hin | ⟨e, hin, rfl⟩
    · intro hbegin
      exact hcontext e hin ((List.prefix_append _ _).trans hbegin)
    · rw [hremoved, List.mem_cons, ← childEntries_append] at hin
      rw [under, List.prefix_append_right_inj]
      rcases hin with rfl | hin
      · exact fun hbegin => absurd (List.prefix_nil.mp hbegin) (List.cons_ne_nil k [])
      · refine not_begin_of_mem_childEntries ?_ hin
        intro b hb
        rcases List.mem_append.mp hb with hb | hb
        · exact hfront b hb
        · exact hback b hb

end Changes

end Upriv.NamedTree
