import Upriv.Logging.Resume

/-!
# Sequence numbers of log files

A new log file should come after all others.  The first file of a process takes the
highest number in the directory and adds one; a rotation adds one to the number of the
file that is open, whatever else is in the directory.  Both additions wrap around.
-/

namespace Upriv.Logging.Raw

open FallibleM

/-- `next` is one more than `last`, and more than every number in these names. -/
structure ComesNext (names : List (List Char)) (last next : UInt32) : Prop where
  exact : next.toNat = last.toNat + 1
  new : ∀ name ∈ names, ∀ seq, logSeq name = some seq → seq < next

section
variable {names : List (List Char)} {seq : UInt32}

theorem toNat_max (a b : UInt32) : (max a b).toNat = max a.toNat b.toNat := by
  have hmax : max a b = if a ≤ b then b else a := rfl
  rw [hmax]
  split
  · rename_i hle
    exact (max_eq_right (UInt32.le_iff_toNat_le.mp hle)).symm
  · rename_i hle
    rw [UInt32.le_iff_toNat_le] at hle
    exact (max_eq_left (Nat.le_of_not_le hle)).symm

/-- What the fold over the names finds, from any number it has found before. -/
theorem foldl_max_spec (names : List (List Char)) (found : UInt32) :
    let m := names.foldl (fun maxSeq name => max maxSeq ((logSeq name).getD 0)) found
    found.toNat ≤ m.toNat ∧
      (∀ name ∈ names, ∀ seq, logSeq name = some seq → seq.toNat ≤ m.toNat) ∧
      (m = found ∨ ∃ name ∈ names, (logSeq name).getD 0 = m) := by
  induction names generalizing found with
  | nil => exact ⟨le_refl _, nofun, .inl rfl⟩
  | cons name names ih =>
      obtain ⟨hfound, hnames, hm⟩ := ih (max found ((logSeq name).getD 0))
      have hmax := toNat_max found ((logSeq name).getD 0)
      rw [List.foldl_cons]
      refine ⟨?_, ?_, ?_⟩
      · omega
      · intro other hother seq hseq
        rcases List.mem_cons.mp hother with rfl | hother
        · rw [hseq, Option.getD_some] at hmax hfound ⊢
          omega
        · exact hnames other hother seq hseq
      · rcases hm with hm | ⟨other, hother, hseq⟩
        · rw [hm]
          by_cases hle : found ≤ (logSeq name).getD 0
          · exact .inr ⟨name, List.mem_cons_self, (if_pos hle).symm⟩
          · exact .inl (if_neg hle)
        · exact .inr ⟨other, List.mem_cons_of_mem _ hother, hseq⟩

theorem le_maxSeq {name : List Char} (hname : name ∈ names) (hseq : logSeq name = some seq) :
    seq.toNat ≤ (maxSeq names).toNat :=
  (foldl_max_spec names 0).2.1 name hname seq hseq

theorem maxSeq_eq_zero_or :
    maxSeq names = 0 ∨ ∃ name ∈ names, logSeq name = some (maxSeq names) := by
  rcases (foldl_max_spec names 0).2.2 with hzero | ⟨name, hname, hseq⟩
  · exact .inl hzero
  · change (logSeq name).getD 0 = maxSeq names at hseq
    cases hlog : logSeq name with
    | none =>
        rw [hlog, Option.getD_none] at hseq
        exact .inl hseq.symm
    | some found =>
        rw [hlog, Option.getD_some] at hseq
        exact .inr ⟨name, hname, by rw [hlog, hseq]⟩

/-- One more, as long as there is one more. -/
theorem toNat_succ_iff (seq : UInt32) :
    (seq + 1).toNat = seq.toNat + 1 ↔ seq ≠ 0xFFFFFFFF := by
  have hlt := seq.toNat_lt
  have hone : (1 : UInt32).toNat = 1 := rfl
  have hlast : (0xFFFFFFFF : UInt32).toNat = 4294967295 := rfl
  rw [UInt32.toNat_add, hone, Ne, ← UInt32.toNat_inj, hlast]
  omega

/-- What is added to the highest number. -/
theorem comesNext_maxSeq_iff :
    ComesNext names (maxSeq names) (maxSeq names + 1) ↔
      ∀ name ∈ names, logSeq name ≠ some 0xFFFFFFFF := by
  constructor
  · rintro ⟨hexact, hnew⟩ name hname hseq
    have hless := UInt32.lt_iff_toNat_lt.mp (hnew name hname _ hseq)
    have hlast : (0xFFFFFFFF : UInt32).toNat = 4294967295 := rfl
    have hlt := (maxSeq names + 1).toNat_lt
    omega
  · intro hnames
    have hne : maxSeq names ≠ 0xFFFFFFFF := by
      intro hmax
      rcases @maxSeq_eq_zero_or names with hzero | ⟨name, hname, hseq⟩
      · rw [hzero] at hmax
        exact absurd hmax (by decide)
      · exact hnames name hname (hseq.trans (congrArg some hmax))
    have hexact := (toNat_succ_iff _).mpr hne
    refine ⟨hexact, fun name hname seq hseq => ?_⟩
    rw [UInt32.lt_iff_toNat_lt, hexact]
    exact Nat.lt_succ_of_le (le_maxSeq hname hseq)

/-- What is added to the number of the open file. -/
theorem comesNext_succ_iff :
    ComesNext names seq (seq + 1) ↔
      seq ≠ 0xFFFFFFFF ∧ ∀ name ∈ names, ∀ other, logSeq name = some other → other ≤ seq := by
  constructor
  · rintro ⟨hexact, hnew⟩
    refine ⟨(toNat_succ_iff _).mp hexact, fun name hname other hother => ?_⟩
    have hless := UInt32.lt_iff_toNat_lt.mp (hnew name hname other hother)
    rw [UInt32.le_iff_toNat_le]
    omega
  · rintro ⟨hne, hnames⟩
    have hexact := (toNat_succ_iff _).mpr hne
    refine ⟨hexact, fun name hname other hother => ?_⟩
    rw [UInt32.lt_iff_toNat_lt, hexact]
    exact Nat.lt_succ_of_le (UInt32.le_iff_toNat_le.mp (hnames name hname other hother))

end

section
variable {config : LogConfig} {sys : LogSystem} {s s' : LogState} {next : UInt32}

theorem nextSequenceNumber_ok (h : (nextSequenceNumber sys).exec s = (.ok next, s')) :
    next = maxSeq (sys.readDir s.disk) + 1 := by
  have hends : Ends 0 (nextSequenceNumber sys) s fun next _ =>
      next = maxSeq (sys.readDir s.disk) + 1 := by
    refine (ends_readDir (Nat.zero_le _)).bind ?_
    rintro names s₁ hle ⟨rfl, -, -⟩
    exact ends_pure hle rfl
  exact (hends.ok h).2

/-- The number of a first file is new unless the highest number is taken; that of a
rotation is new if the file that is rotated has the highest number, and it is not that. -/
theorem sequenceNumbers_new_iff (config : LogConfig) (sys : LogSystem) :
    (∀ s next s', (nextSequenceNumber sys).exec s = (.ok next, s') →
      (ComesNext (sys.readDir s.disk) (maxSeq (sys.readDir s.disk)) next ↔
        ∀ name ∈ sys.readDir s.disk, logSeq name ≠ some 0xFFFFFFFF)) ∧
    ∀ s active content next s', Holds s.disk active content →
      (rotateActive config sys active).exec s = (.ok next, s') →
      next.name = active.name ∧ next.seq = active.seq ∨
        (ComesNext (sys.readDir s.disk) active.seq next.seq ↔
          active.seq ≠ 0xFFFFFFFF ∧ ∀ name ∈ sys.readDir s.disk, ∀ other,
            logSeq name = some other → other ≤ active.seq) := by
  constructor
  · intro s next s' hrun
    rw [nextSequenceNumber_ok hrun]
    exact comesNext_maxSeq_iff
  · intro s active content next s' hholds hrun
    obtain ⟨-, ⟨hseq, -⟩ | ⟨hsame, -⟩⟩ := (ends_rotateActive hholds (le_refl s.failed)).ok hrun
    · rw [hseq]
      exact .inr comesNext_succ_iff
    · exact .inl hsame

end

/-! ## Sample directories -/

/-- A current file with the number 1, and an archived one with this number. -/
def besideArchive (seq : UInt32) : LogsDisk :=
  (leftOver []).insert (archivedLogName seq (utcFilenameStamp 0)) []

theorem sequenceNumbers_new_besideFirst :
    ∃ next s', (rotateActive {} calmSystem ⟨leftCurrent, 1, 1000, []⟩).exec
        { disk := besideArchive 0 } = (.ok next, s') ∧ next.seq = 2 ∧
      ComesNext (calmSystem.readDir (besideArchive 0)) 1 next.seq := by
  have hrotated : ((rotateActive {} calmSystem ⟨leftCurrent, 1, 1000, []⟩).exec
      { disk := besideArchive 0 }).1.toOption.map (·.seq) = some 2 := by
    rfl
  obtain ⟨next, hnext, hseq⟩ := Option.map_eq_some_iff.mp hrotated
  rcases hrun : (rotateActive {} calmSystem ⟨leftCurrent, 1, 1000, []⟩).exec
    { disk := besideArchive 0 } with ⟨error | found, s'⟩
  · rw [hrun] at hnext
    cases hnext
  · rw [hrun] at hnext
    cases hnext
    refine ⟨next, s', rfl, hseq, ?_⟩
    rcases (sequenceNumbers_new_iff {} calmSystem).2 { disk := besideArchive 0 }
      ⟨leftCurrent, 1, 1000, []⟩ [] next s' ⟨[], by rfl, rfl⟩ hrun with ⟨-, hsame⟩ | hiff
    · rw [hseq] at hsame
      cases hsame
    · refine hiff.mpr ⟨by decide, fun name hname other hother => ?_⟩
      have hlow : ((calmSystem.readDir (besideArchive 0)).all fun name =>
          (logSeq name).all (· ≤ 1)) = true := by rfl
      have hle := List.all_eq_true.mp hlow name hname
      rw [hother] at hle
      exact of_decide_eq_true hle

/-- Behind the last number comes 0; and a rotation does not see a file that was named by
hand. -/
theorem sequenceNumbers_not_new :
    (∃ s', (nextSequenceNumber calmSystem).exec { disk := besideArchive 0xFFFFFFFF } =
        (.ok 0, s') ∧
      ¬ ComesNext (calmSystem.readDir (besideArchive 0xFFFFFFFF)) 0xFFFFFFFF 0) ∧
    ∃ next s', (rotateActive {} calmSystem ⟨leftCurrent, 1, 1000, []⟩).exec
        { disk := besideArchive 5 } = (.ok next, s') ∧ next.seq = 2 ∧
      ¬ ComesNext (calmSystem.readDir (besideArchive 5)) 1 next.seq := by
  have harchived : logSeq (archivedLogName 5 (utcFilenameStamp 0)) = some 5 := by rfl
  refine ⟨⟨_, by rfl, fun h => absurd h.exact (by decide)⟩, _, _, rfl, by rfl, fun h => ?_⟩
  exact absurd (h.new _ (by decide +kernel) 5 harchived) (by decide)

end Upriv.Logging.Raw
