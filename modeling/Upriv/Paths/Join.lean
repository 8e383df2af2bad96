import Upriv.Error
import Mathlib.Data.List.DropRight

/-!
# Path texts

Joining a path with a relative one, and taking the last component off.
-/

namespace Upriv

/-- `Path::join` with a relative second part. -/
def joinPath (dir name : PathBuf) : PathBuf :=
  if dir.isEmpty || dir.toList.getLast? == some '/' then dir ++ name
  else dir ++ "/" ++ name

/-- The text before the last component, with its separator. -/
def beforeName (path : PathBuf) : List Char :=
  (path.toList.rdropWhile (· == '/')).rdropWhile (· != '/')

/-- `Path::parent`, for a path whose last component is a name. -/
def parent (path : PathBuf) : Option PathBuf :=
  if path.toList.all (· == '/') then none
  else
    match (beforeName path).rdropWhile (· == '/'), beforeName path with
    | [], [] => some ""
    | [], _ :: _ => some "/"
    | cs, _ => some (String.ofList cs)

/-- `Path::file_name`, for a path whose last component is a name. -/
def fileName (path : PathBuf) : Option String :=
  if path.toList.all (· == '/') then none
  else
    some (String.ofList
      ((path.toList.rdropWhile (· == '/')).drop (beforeName path).length))

theorem joinPath_eq (dir name : PathBuf) :
    (joinPath dir name).toList = (joinPath dir "").toList ++ name.toList := by
  unfold joinPath
  split <;> simp

theorem joinPath_injective (dir : PathBuf) :
    Function.Injective (joinPath dir) := by
  intro a b h
  have htext := congrArg String.toList h
  rw [joinPath_eq dir a, joinPath_eq dir b, List.append_cancel_left_eq] at htext
  exact String.toList_inj.mp htext

theorem prefix_joinPath (dir name : PathBuf) :
    dir.toList <+: (joinPath dir name).toList := by
  unfold joinPath
  split <;> simp [List.append_assoc]

/-! ## Plain paths -/

/-- Neither empty nor with a separator at the end. -/
def IsPlain (path : PathBuf) : Prop :=
  path.toList ≠ [] ∧ path.toList.getLast? ≠ some '/'

instance (path : PathBuf) : Decidable (IsPlain path) :=
  inferInstanceAs (Decidable (_ ∧ _))

/-- One component: a file name. -/
def IsName (name : String) : Prop := name.toList ≠ [] ∧ '/' ∉ name.toList

instance (name : String) : Decidable (IsName name) :=
  inferInstanceAs (Decidable (_ ∧ _))

section
variable {dir dir' : PathBuf} {name name' : String}

theorem toList_joinPath_of_isPlain (hdir : IsPlain dir) (name : PathBuf) :
    (joinPath dir name).toList = dir.toList ++ '/' :: name.toList := by
  have hempty : dir.isEmpty = false := by
    rw [← Bool.not_eq_true, String.isEmpty_iff]
    rintro rfl
    exact hdir.1 rfl
  have hlast : ¬ (dir.toList.getLast? == some '/') = true := by
    simpa using hdir.2
  rw [joinPath, hempty, if_neg (by simpa using hlast), String.toList_append,
    String.toList_append, List.append_assoc]
  rfl

theorem getLast?_joinPath (dir : PathBuf) (hname : name.toList ≠ []) :
    (joinPath dir name).toList.getLast? = name.toList.getLast? := by
  rw [joinPath_eq, List.getLast?_append, List.getLast?_eq_some_getLast hname]
  rfl

theorem isPlain_joinPath (dir : PathBuf) (hname : IsName name) :
    IsPlain (joinPath dir name) := by
  constructor
  · rw [joinPath_eq]
    simp [hname.1]
  · rw [getLast?_joinPath dir hname.1]
    intro hlast
    exact hname.2 (List.mem_of_getLast? hlast)

/-- The file name of a path, as the text after the last separator. -/
theorem rtakeWhile_joinPath (hname : '/' ∉ name.toList) :
    (joinPath dir name).toList.rtakeWhile (· != '/') = name.toList := by
  have hall : ∀ c ∈ name.toList.reverse, (c != '/') = true := by
    intro c hc
    rw [bne_iff_ne]
    rintro rfl
    exact hname (List.mem_reverse.mp hc)
  have hstop : ∀ cs : List Char, cs = [] ∨ cs.getLast? = some '/' →
      (cs ++ name.toList).rtakeWhile (· != '/') = name.toList := by
    intro cs hcs
    have htake : cs.reverse.takeWhile (· != '/') = [] := by
      rcases hcs with rfl | hlast
      · rfl
      · obtain ⟨before, rfl⟩ := List.getLast?_eq_some_iff.mp hlast
        simp
    rw [List.rtakeWhile, List.reverse_append, List.takeWhile_append_of_pos hall, htake,
      List.append_nil, List.reverse_reverse]
  rw [joinPath_eq]
  refine hstop _ ?_
  unfold joinPath
  split
  · rename_i h
    rcases (Bool.or_eq_true _ _).mp h with hempty | hlast
    · left
      rw [String.isEmpty_iff.mp hempty]
      rfl
    · right
      simpa using hlast
  · right
    simp

theorem name_of_joinPath_eq (hname : '/' ∉ name.toList) (hname' : '/' ∉ name'.toList)
    (h : joinPath dir name = joinPath dir' name') : name = name' := by
  apply String.toList_inj.mp
  rw [← rtakeWhile_joinPath hname, ← rtakeWhile_joinPath hname', h]

/-- Names with different endings, also where one of them has separators in it. -/
theorem joinPath_ne_of_suffix {ending : List Char} (hname : ending <:+ name.toList)
    (hname' : ¬ ending <:+ name'.toList) (hlength : ending.length ≤ name'.toList.length) :
    joinPath dir name ≠ joinPath dir' name' := by
  intro h
  have hpath (dir name : PathBuf) : name.toList <:+ (joinPath dir name).toList := by
    rw [joinPath_eq]
    exact List.suffix_append _ _
  have hending : ending <:+ (joinPath dir' name').toList := h ▸ hname.trans (hpath dir name)
  exact hname' (List.suffix_of_suffix_length_le hending (hpath dir' name') hlength)

theorem dir_of_joinPath_eq (hdir : IsPlain dir) (hdir' : IsPlain dir')
    (h : joinPath dir name = joinPath dir' name) : dir = dir' := by
  have htext := congrArg String.toList h
  rw [toList_joinPath_of_isPlain hdir, toList_joinPath_of_isPlain hdir',
    List.append_cancel_right_eq] at htext
  exact String.toList_inj.mp htext

theorem rdropWhile_joinPath (hname : IsName name) :
    (joinPath dir name).toList.rdropWhile (· == '/') = (joinPath dir name).toList := by
  rw [List.rdropWhile_eq_self_iff]
  intro hne hslash
  apply (isPlain_joinPath dir hname).2
  rw [List.getLast?_eq_some_getLast hne, beq_iff_eq.mp hslash]

theorem beforeName_joinPath (hdir : IsPlain dir) (hname : IsName name) :
    beforeName (joinPath dir name) = dir.toList ++ ['/'] := by
  have hall : ∀ c ∈ name.toList.reverse, (c != '/') = true := by
    intro c hc
    rw [bne_iff_ne]
    rintro rfl
    exact hname.2 (List.mem_reverse.mp hc)
  rw [beforeName, rdropWhile_joinPath hname, toList_joinPath_of_isPlain hdir, List.rdropWhile,
    List.reverse_append, List.reverse_cons, List.append_assoc,
    List.dropWhile_append_of_pos hall]
  simp

theorem not_all_slash_joinPath (hname : IsName name) :
    (joinPath dir name).toList.all (· == '/') = false := by
  rw [List.all_eq_false]
  obtain ⟨c, hc⟩ := List.exists_mem_of_ne_nil _ hname.1
  refine ⟨c, ?_, ?_⟩
  · rw [joinPath_eq]
    exact List.mem_append_right _ hc
  · rw [beq_iff_eq]
    rintro rfl
    exact hname.2 hc

theorem parent_joinPath (hdir : IsPlain dir) (hname : IsName name) :
    parent (joinPath dir name) = some dir := by
  have hdirChars : dir.toList.rdropWhile (· == '/') = dir.toList := by
    rw [List.rdropWhile_eq_self_iff]
    intro hne hslash
    apply hdir.2
    rw [List.getLast?_eq_some_getLast hne, beq_iff_eq.mp hslash]
  have hparent : (dir.toList ++ ['/']).rdropWhile (· == '/') = dir.toList := by
    rw [List.rdropWhile_concat, if_pos (beq_self_eq_true '/'), hdirChars]
  rw [parent, not_all_slash_joinPath hname, beforeName_joinPath hdir hname, hparent]
  cases hcs : dir.toList with
  | nil => exact absurd hcs hdir.1
  | cons c cs =>
      simp only [Bool.false_eq_true, ↓reduceIte]
      rw [← hcs, String.ofList_toList]

theorem fileName_joinPath (hdir : IsPlain dir) (hname : IsName name) :
    fileName (joinPath dir name) = some name := by
  rw [fileName, not_all_slash_joinPath hname, rdropWhile_joinPath hname,
    beforeName_joinPath hdir hname, toList_joinPath_of_isPlain hdir]
  simp only [Bool.false_eq_true, ↓reduceIte, List.length_append, List.length_singleton,
    Option.some.injEq]
  rw [← List.singleton_append, ← List.append_assoc, List.drop_left' (by simp),
    String.ofList_toList]

end

end Upriv
