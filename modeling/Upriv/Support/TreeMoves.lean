import Upriv.Support.TreeEntries

/-!
# Moving and renaming subtrees

A subtree is moved by taking it away from its parent and appending it to another node,
which must not be in the subtree.
-/

namespace Upriv.NamedTree

variable {κ α : Type} [DecidableEq κ]

/-! ## What stays where it is -/

section Frame

variable {t s u : NamedTree κ α} {k : κ} {ks way : List κ} {f : NamedTree κ α → NamedTree κ α}

/-- A node that is found after a change of the node at `ks`: it is the same node, and the
same subtree unless the change is in it. -/
structure Kept (ks : List κ) (way : List κ) (u u' : NamedTree κ α) : Prop where
  name : u'.name = u.name
  label : u'.label = u.label
  eq : ¬ way <+: ks → u' = u

theorem find_modifyAt_kept (hname : ∀ c, (f c).name = c.name) (hlabel : ∀ c, (f c).label = c.label)
    (hkept : ∀ s k rest, way = ks ++ k :: rest → ∀ c, s.children.find? (name · = k) = some c →
      (f s).children.find? (name · = k) = some c)
    (hu : find way t = some u) : ∃ u', find way (modifyAt f ks t) = some u' ∧ Kept ks way u u' := by
  by_cases habove : way <+: ks
  · obtain ⟨rest, rfl⟩ := habove
    refine ⟨modifyAt f rest u, ?_, name_modifyAt hname rest u, label_modifyAt hlabel rest u, ?_⟩
    · rw [find_modifyAt_append hname, hu]
      rfl
    · exact fun hnot => absurd (List.prefix_append way rest) hnot
  · refine ⟨u, ?_, rfl, rfl, fun _ => rfl⟩
    by_cases hbelow : ks <+: way
    · obtain ⟨rest, rfl⟩ := hbelow
      cases rest with
      | nil => exact absurd ⟨[], by rw [List.append_nil, List.append_nil]⟩ habove
      | cons k rest =>
        rw [find_append] at hu
        obtain ⟨s, hs, hsu⟩ := Option.bind_eq_some_iff.mp hu
        obtain ⟨c, hc, hcu⟩ := find_cons_eq_some.mp hsu
        rw [find_append_modifyAt hname, hs, Option.bind_some, find_cons_eq_some]
        exact ⟨c, hkept s k rest rfl c hc, hcu⟩
    · rw [find_modifyAt_of_apart hname hbelow habove, hu]

theorem find_removeAt_kept (hway : ¬ ks ++ [k] <+: way) (hu : find way t = some u) :
    ∃ u', find way (modifyAt (removeChild k) ks t) = some u' ∧ Kept ks way u u' := by
  refine find_modifyAt_kept (fun _ => rfl) (fun _ => rfl) ?_ hu
  intro s k' rest hrest c hc
  have hne : k' ≠ k := by
    rintro rfl
    refine hway ⟨rest, ?_⟩
    rw [hrest, List.append_assoc, List.singleton_append]
  rw [removeChild, children_mapChildren, find?_filter_of_ne hne, hc]

theorem find_appendAt_kept (hu : find way t = some u) :
    ∃ u', find way (modifyAt (appendChild s) ks t) = some u' ∧ Kept ks way u u' := by
  refine find_modifyAt_kept (fun _ => rfl) (fun _ => rfl) ?_ hu
  intro t k rest _ c hc
  rw [appendChild, children_mapChildren, List.find?_append, hc]
  rfl

end Frame

/-! ## The move -/

section Move

variable {t s : NamedTree κ α} {k : κ} {ks ls : List κ}

/-- The tree without the subtree at `ks ++ [k]` and with `s` below `ls`. -/
def moveAt (ks : List κ) (k : κ) (ls : List κ) (s t : NamedTree κ α) : NamedTree κ α :=
  modifyAt (appendChild s) ls (modifyAt (removeChild k) ks t)

/-- Replaces the beginning `ks` by `ls`. -/
def replacePrefix (ks ls way : List κ) : List κ :=
  if ks <+: way then ls ++ way.drop ks.length else way

theorem replacePrefix_append (ks ls way : List κ) :
    replacePrefix ks ls (ks ++ way) = ls ++ way := by
  rw [replacePrefix, if_pos (List.prefix_append _ _), List.drop_left]

theorem replacePrefix_of_not_begin {way : List κ} (h : ¬ ks <+: way) (ls : List κ) :
    replacePrefix ks ls way = way := if_neg h

theorem everywhere_removeAt {P : α → List κ → Prop} (ht : Everywhere P t)
    (hP : ∀ l names names', names'.Sublist names → P l names → P l names') :
    Everywhere P (modifyAt (removeChild k) ks t) := by
  refine ht.modifyAt (fun _ => rfl) fun p _ hp => ?_
  rw [everywhere_iff] at hp
  rw [removeChild, everywhere_iff, label_mapChildren, children_mapChildren]
  refine ⟨hP _ _ _ (List.filter_sublist.map name) hp.1, ?_⟩
  intro c hc
  exact hp.2 c (List.mem_of_mem_filter hc)

/-- A node that is not in the subtree stays, with all below it when neither the old
parent nor the new one is there. -/
theorem find_moveAt_kept {way : List κ} {u : NamedTree κ α} (hway : ¬ ks ++ [k] <+: way)
    (hu : find way t = some u) : ∃ u', find way (moveAt ks k ls s t) = some u' ∧
      u'.name = u.name ∧ u'.label = u.label ∧ (¬ way <+: ks → ¬ way <+: ls → u' = u) := by
  obtain ⟨v, hv, hremoved⟩ := find_removeAt_kept hway hu
  obtain ⟨u', hu', happended⟩ := @find_appendAt_kept _ _ _ _ s _ ls _ hv
  refine ⟨u', hu', happended.name.trans hremoved.name, happended.label.trans hremoved.label, ?_⟩
  intro hks hls
  rw [happended.eq hls, hremoved.eq hks]

/-- Where a subtree can be moved to: the names below the target do not have its name,
unless the target is its parent. -/
structure Movable (ks : List κ) (k : κ) (ls : List κ) (s target t : NamedTree κ α) : Prop where
  distinct : SiblingsDistinct t
  found : find (ks ++ [k]) t = some s
  foundTarget : find ls t = some target
  notBelow : ¬ ks ++ [k] <+: ls
  free : ls ≠ ks → k ∉ target.children.map name

namespace Movable

variable {target : NamedTree κ α} (h : Movable ks k ls s target t)
include h

theorem name_eq : s.name = k := name_of_find_append_singleton h.found

theorem distinct_removed : SiblingsDistinct (modifyAt (removeChild k) ks t) :=
  everywhere_removeAt h.distinct fun _ _ _ hsub hnodup => hnodup.sublist hsub

/-- The target after the subtree is taken away. -/
theorem exists_target : ∃ target', find ls (modifyAt (removeChild k) ks t) = some target' ∧
    Kept ks ls target target' ∧ k ∉ target'.children.map name := by
  obtain ⟨target', hfind, hkept⟩ := find_removeAt_kept h.notBelow h.foundTarget
  refine ⟨target', hfind, hkept, ?_⟩
  intro hk
  obtain ⟨c, hc, hname⟩ := List.mem_map.mp hk
  have hway : find (ls ++ [k]) (modifyAt (removeChild k) ks t) = some c := by
    rw [find_append, hfind, Option.bind_some, find_cons_eq_some]
    have hnodup := (everywhere_iff.mp (h.distinct_removed.of_find hfind)).1
    exact ⟨c, (find?_key_eq_some hnodup).mpr ⟨hc, hname⟩, rfl⟩
  have hentry := (mem_entries_iff h.distinct_removed).mpr ⟨c, hway, rfl⟩
  obtain ⟨hperm, hnot⟩ := entries_removeAt h.distinct h.found
  have hne : ls ≠ ks := by
    rintro rfl
    exact hnot _ hentry (List.prefix_refl _)
  have hold := hperm.mem_iff.mpr (List.mem_append_left _ hentry)
  obtain ⟨c', hc', -⟩ := (mem_entries_iff h.distinct).mp hold
  rw [find_append, h.foundTarget, Option.bind_some] at hc'
  obtain ⟨b, hb, -⟩ := find_cons_eq_some.mp hc'
  refine h.free hne (List.mem_map.mpr ⟨b, List.mem_of_find?_eq_some hb, ?_⟩)
  exact name_of_find?_eq_some hb

/-- A condition that the names below may shrink under, and that allows the new name. -/
theorem everywhere_moveAt {P : α → List κ → Prop} (ht : Everywhere P t)
    (hP : ∀ l names names', names'.Sublist names → P l names → P l names')
    (happend : ∀ names, k ∉ names → P target.label names → P target.label (names ++ [k])) :
    Everywhere P (moveAt ks k ls s t) := by
  have hremoved : Everywhere P (modifyAt (removeChild k) ks t) := everywhere_removeAt ht hP
  obtain ⟨target', htarget, hkept, hfree⟩ := h.exists_target
  refine hremoved.modifyAt (fun _ => rfl) fun p hp hall => ?_
  rw [htarget] at hp
  cases hp
  rw [everywhere_iff, hkept.label] at hall
  rw [appendChild, everywhere_iff, label_mapChildren, children_mapChildren, hkept.label,
    List.map_append, List.map_singleton, h.name_eq]
  refine ⟨happend _ hfree hall.1, ?_⟩
  intro c hc
  rcases List.mem_append.mp hc with hc | hc
  · exact hall.2 c hc
  · rw [List.mem_singleton.mp hc]
    exact ht.of_find h.found

/-- What is appended with the entries of the subtree, perhaps under another name. -/
theorem entries_moveAt_of_eq {s' : NamedTree κ α} (hs' : entries s' = entries s) :
    (entries (moveAt ks k ls s' t)).Perm
      ((entries t).map fun e => (replacePrefix (ks ++ [k]) (ls ++ [s'.name]) e.1, e.2)) := by
  obtain ⟨target', htarget, -, -⟩ := h.exists_target
  obtain ⟨hperm, hnot⟩ := entries_removeAt h.distinct h.found
  have happended := entries_appendAt (s := s') h.distinct_removed htarget
  refine happended.trans (List.Perm.trans ?_ (hperm.map _).symm)
  rw [hs']
  rw [List.map_append, List.map_map]
  have hkept : (entries (modifyAt (removeChild k) ks t)).map
      (fun e => (replacePrefix (ks ++ [k]) (ls ++ [s'.name]) e.1, e.2)) =
      entries (modifyAt (removeChild k) ks t) := by
    refine (List.map_congr_left fun e he => ?_).trans (List.map_id _)
    rw [replacePrefix_of_not_begin (hnot e he)]
    rfl
  rw [hkept]
  refine List.Perm.append_left _ (List.Perm.of_eq (List.map_congr_left fun e _ => ?_))
  rw [Function.comp_apply, under, under, replacePrefix_append]

/-- A move replaces the beginning of the ways into the subtree. -/
theorem entries_moveAt : (entries (moveAt ks k ls s t)).Perm
    ((entries t).map fun e => (replacePrefix (ks ++ [k]) (ls ++ [k]) e.1, e.2)) := by
  have hperm := h.entries_moveAt_of_eq rfl
  rwa [h.name_eq] at hperm

/-- A move loses no node and makes none. -/
theorem nodes_moveAt : (nodes (moveAt ks k ls s t)).Perm (nodes t) := by
  have hroot : (moveAt ks k ls s t).name = t.name := by
    rw [moveAt, name_modifyAt (f := appendChild s) fun _ => rfl,
      name_modifyAt (f := removeChild k) fun _ => rfl]
  rw [nodes_eq, nodes_eq, hroot]
  refine (h.entries_moveAt.map _).trans (List.Perm.of_eq ?_)
  rw [List.map_map]
  refine List.map_congr_left fun e _ => ?_
  rw [Function.comp_apply]
  unfold replacePrefix
  split
  · rename_i hbegin
    obtain ⟨rest, hrest⟩ := hbegin
    rw [← hrest, List.drop_left, List.getLast?_append, List.getLast?_append, List.getLast?_append,
      List.getLast?_append]
    rfl
  · rfl

/-- The subtree is found at its new place. -/
theorem find_moveAt_moved : find (ls ++ [k]) (moveAt ks k ls s t) = some s := by
  obtain ⟨target', htarget, -, hfree⟩ := h.exists_target
  rw [moveAt, find_append_modifyAt (f := appendChild s) fun _ => rfl, htarget,
    Option.bind_some, find_cons_eq_some]
  refine ⟨s, ?_, rfl⟩
  rw [appendChild, children_mapChildren, List.find?_append, find?_key_eq_none.mpr hfree,
    find?_name_cons, if_pos h.name_eq]
  rfl

end Movable

/-! ## Renaming -/

variable {k' : κ}

/-- Renaming a node replaces the beginning of the ways into it, too. -/
theorem entries_renameAt (h : SiblingsDistinct t) (hs : find (ks ++ [k]) t = some s) (k' : κ) :
    (entries (modifyAt (rename k') (ks ++ [k]) t)).Perm
      ((entries t).map fun e => (replacePrefix (ks ++ [k]) (ks ++ [k']) e.1, e.2)) := by
  have hfound := hs
  rw [find_append] at hfound
  obtain ⟨p, hp, hps⟩ := Option.bind_eq_some_iff.mp hfound
  obtain ⟨c, hc, hcs⟩ := find_cons_eq_some.mp hps
  cases hcs
  have hname := name_of_find?_eq_some hc
  obtain ⟨front, back, hsplit, hfront, hback⟩ :=
    exists_split (everywhere_iff.mp (h.of_find hp)).1 hc
  have hmovable : Movable ks k ks s p t := by
    refine ⟨h, hs, hp, ?_, fun hne => absurd rfl hne⟩
    intro hbegin
    have hlength := hbegin.length_le
    rw [List.length_append, List.length_singleton] at hlength
    omega
  have hmoved := hmovable.entries_moveAt_of_eq (entries_rename k' s)
  rw [moveAt, modifyAt_modifyAt (f := removeChild k) fun _ => rfl] at hmoved
  rw [modifyAt_append]
  refine List.Perm.trans ?_ hmoved
  refine entries_modifyAt_congr h hp (fun _ => rfl) (fun _ => rfl) ?_
  rw [modifyAt, entries_eq, entries_eq, Function.comp_apply, appendChild, removeChild,
    label_mapChildren, label_mapChildren, label_mapChildren, children_mapChildren,
    children_mapChildren, children_mapChildren, hsplit, modifyChild_split hfront hname,
    filter_split hfront hname hback]
  refine List.Perm.cons _ (childEntries_perm ?_)
  rw [List.append_assoc]
  exact List.Perm.append_left _ (List.perm_append_singleton _ _).symm

/-- A condition that allows the new name. -/
theorem everywhere_renameAt {P : α → List κ → Prop} (h : SiblingsDistinct t)
    (hs : find (ks ++ [k]) t = some s) (ht : Everywhere P t)
    (hP : ∀ p front back, find ks t = some p → p.children.map name = front ++ k :: back →
      P p.label (p.children.map name) → P p.label (front ++ k' :: back)) :
    Everywhere P (modifyAt (rename k') (ks ++ [k]) t) := by
  rw [modifyAt_append]
  refine ht.modifyAt (fun _ => rfl) fun p hp hall => ?_
  rw [find_append, hp, Option.bind_some] at hs
  obtain ⟨c, hc, -⟩ := find_cons_eq_some.mp hs
  have hname := name_of_find?_eq_some hc
  obtain ⟨front, back, hsplit, hfront, -⟩ :=
    exists_split (everywhere_iff.mp (h.of_find hp)).1 hc
  have hnames : p.children.map name = front.map name ++ k :: back.map name := by
    rw [hsplit, List.map_append, List.map_cons, hname]
  rw [everywhere_iff] at hall
  rw [modifyAt, everywhere_iff, label_mapChildren, children_mapChildren, hsplit,
    modifyChild_split hfront hname, List.map_append, List.map_cons]
  refine ⟨hP p _ _ hp hnames hall.1, ?_⟩
  intro b hb
  have hold : ∀ b ∈ front ++ c :: back, Everywhere P b := by
    rw [← hsplit]
    exact hall.2
  rw [List.mem_append, List.mem_cons] at hb
  rcases hb with hb | rfl | hb
  · exact hold b (List.mem_append_left _ hb)
  · have hchild := hold c (List.mem_append_right _ List.mem_cons_self)
    rw [everywhere_iff] at hchild
    exact everywhere_iff.mpr hchild
  · exact hold b (List.mem_append_right _ (List.mem_cons_of_mem _ hb))

end Move

end Upriv.NamedTree
