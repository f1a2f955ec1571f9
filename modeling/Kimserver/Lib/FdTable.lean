import Kimserver.Lib.FiniteMap

/-!
# Descriptor tables

A process names its open files by numbers. Opening a file gives it a number that is not in use,
and closing a number frees it for another file. The files are known by the order in which they
were opened, and `closed` lists the files that were closed, each time they were.

## Main definitions

* `FdTable`, `FdTable.openFd`, `FdTable.closeFd`: the table and its operations
* `FdTable.Sound`: a file is under one number until it is closed

## Main results

* `FdTable.Sound.openFd`, `FdTable.Sound.closeFd`: the operations keep the table sound
* `FdTable.Sound.closed_or_open`: a file that was opened is open or was closed, never both
-/

/-- The files by their number, how many were opened, and those that were closed. -/
structure FdTable where
  fds : FiniteMap ℕ ℕ := ∅
  issued : ℕ := 0
  closed : List ℕ := []

namespace FdTable

/-- The file under a number. -/
def file (t : FdTable) (fd : ℕ) : Option ℕ := t.fds.lookup fd

/-- The number that the next file gets: `hint` if it is free. -/
def nextFd (t : FdTable) (hint : ℕ) : ℕ := FiniteMap.fresh t.fds.keys hint

/-- A file is opened. -/
def openFd (t : FdTable) (hint : ℕ) : FdTable :=
  { t with fds := t.fds.insert (t.nextFd hint) t.issued, issued := t.issued + 1 }

/-- A number is closed; a number that is not in use is refused. -/
def closeFd (t : FdTable) (fd : ℕ) : FdTable :=
  match t.fds.lookup fd with
  | none => t
  | some f => { t with fds := t.fds.erase fd, closed := t.closed ++ [f] }

/-- A file that was opened is under one number until it is closed, and is closed once. -/
structure Sound (t : FdTable) : Prop where
  issued : ∀ {fd f : ℕ}, t.file fd = some f → f < t.issued
  not_closed : ∀ {fd f : ℕ}, t.file fd = some f → f ∉ t.closed
  inj : ∀ {fd fd' f : ℕ}, t.file fd = some f → t.file fd' = some f → fd = fd'
  nodup : t.closed.Nodup
  closed_issued : ∀ f ∈ t.closed, f < t.issued
  total : ∀ f < t.issued, f ∈ t.closed ∨ ∃ fd, t.file fd = some f

variable {t : FdTable} {fd f : ℕ}

theorem sound_empty : Sound {} where
  issued h := by simp [file] at h
  not_closed h := by simp [file] at h
  inj h := by simp [file] at h
  nodup := List.nodup_nil
  closed_issued f h := absurd h List.not_mem_nil
  total f h := absurd h (Nat.not_lt_zero f)

theorem file_nextFd (t : FdTable) (hint : ℕ) : t.file (t.nextFd hint) = none :=
  FiniteMap.lookup_fresh t.fds hint

theorem file_openFd (t : FdTable) (hint fd : ℕ) :
    (t.openFd hint).file fd = if fd = t.nextFd hint then some t.issued else t.file fd :=
  FiniteMap.lookup_insert ..

theorem closeFd_of_none (h : t.file fd = none) : t.closeFd fd = t := by
  unfold file at h
  rw [closeFd, h]

theorem closeFd_of_some (h : t.file fd = some f) :
    t.closeFd fd = { t with fds := t.fds.erase fd, closed := t.closed ++ [f] } := by
  unfold file at h
  rw [closeFd, h]

theorem file_closeFd (t : FdTable) (fd fd' : ℕ) :
    (t.closeFd fd).file fd' = if fd' = fd then none else t.file fd' := by
  cases h : t.file fd with
  | none =>
    rw [closeFd_of_none h]
    split_ifs with heq
    · rw [heq, h]
    · rfl
  | some f =>
    rw [closeFd_of_some h]
    exact FiniteMap.lookup_erase ..

theorem closeFd_issued (t : FdTable) (fd : ℕ) : (t.closeFd fd).issued = t.issued := by
  unfold closeFd
  split <;> rfl

/-- A file that was closed is one that was closed before, or the file under the number. -/
theorem mem_closed_closeFd (t : FdTable) (fd f : ℕ) :
    f ∈ (t.closeFd fd).closed ↔ f ∈ t.closed ∨ t.file fd = some f := by
  cases h : t.file fd with
  | none =>
    rw [closeFd_of_none h]
    simp
  | some f' =>
    rw [closeFd_of_some h]
    simp [eq_comm]

theorem Sound.openFd (h : t.Sound) (hint : ℕ) : (t.openFd hint).Sound := by
  have hnew : ∀ {fd f : ℕ}, (t.openFd hint).file fd = some f →
      fd = t.nextFd hint ∧ f = t.issued ∨ t.file fd = some f := by
    intro fd f hf
    rw [file_openFd] at hf
    split_ifs at hf with heq
    · exact Or.inl ⟨heq, (Option.some.inj hf).symm⟩
    · exact Or.inr hf
  constructor
  · intro fd f hf
    obtain ⟨-, rfl⟩ | hold := hnew hf
    · exact Nat.lt_succ_self _
    · exact Nat.lt_succ_of_lt (h.issued hold)
  · intro fd f hf hclosed
    obtain ⟨-, rfl⟩ | hold := hnew hf
    · exact absurd (h.closed_issued _ hclosed) (Nat.lt_irrefl _)
    · exact h.not_closed hold hclosed
  · intro fd fd' f hf hf'
    obtain ⟨heq, rfl⟩ | hold := hnew hf <;> obtain ⟨heq', hnum⟩ | hold' := hnew hf'
    · rw [heq, heq']
    · exact absurd (h.issued hold') (Nat.lt_irrefl _)
    · subst hnum
      exact absurd (h.issued hold) (Nat.lt_irrefl _)
    · exact h.inj hold hold'
  · exact h.nodup
  · exact fun f hf => Nat.lt_succ_of_lt (h.closed_issued f hf)
  · intro f hf
    rcases Nat.lt_succ_iff_lt_or_eq.mp hf with hlt | rfl
    · refine (h.total f hlt).imp_right ?_
      rintro ⟨fd, hfd⟩
      refine ⟨fd, ?_⟩
      rw [file_openFd, if_neg]
      · exact hfd
      · rintro rfl
        rw [file_nextFd] at hfd
        cases hfd
    · exact Or.inr ⟨t.nextFd hint, by rw [file_openFd, if_pos rfl]⟩

theorem Sound.closeFd (h : t.Sound) (fd : ℕ) : (t.closeFd fd).Sound := by
  have hold : ∀ {fd' f : ℕ}, (t.closeFd fd).file fd' = some f → fd' ≠ fd ∧ t.file fd' = some f := by
    intro fd' f hf
    rw [file_closeFd] at hf
    split_ifs at hf with hne
    exact ⟨hne, hf⟩
  constructor
  · intro fd' f hf
    rw [closeFd_issued]
    exact h.issued (hold hf).2
  · intro fd' f hf hclosed
    obtain ⟨hne, hf⟩ := hold hf
    rcases (mem_closed_closeFd t fd f).mp hclosed with hclosed | hfd
    · exact h.not_closed hf hclosed
    · exact hne (h.inj hf hfd)
  · exact fun hf hf' => h.inj (hold hf).2 (hold hf').2
  · cases hfd : t.file fd with
    | none =>
      rw [closeFd_of_none hfd]
      exact h.nodup
    | some f =>
      rw [closeFd_of_some hfd]
      exact List.nodup_append.mpr ⟨h.nodup, List.nodup_singleton f, by
        rintro x hx y hy rfl
        exact h.not_closed hfd ((List.mem_singleton.mp hy) ▸ hx)⟩
  · intro f hf
    rw [closeFd_issued]
    rcases (mem_closed_closeFd t fd f).mp hf with hclosed | hfd
    · exact h.closed_issued f hclosed
    · exact h.issued hfd
  · intro f hf
    rw [closeFd_issued] at hf
    rw [mem_closed_closeFd]
    rcases h.total f hf with hclosed | ⟨fd', hfd'⟩
    · exact Or.inl (Or.inl hclosed)
    · by_cases heq : fd' = fd
      · exact Or.inl (Or.inr (heq ▸ hfd'))
      · refine Or.inr ⟨fd', ?_⟩
        rw [file_closeFd, if_neg heq]
        exact hfd'

/-- **A file that was opened** is open under one number, or was closed once. -/
theorem Sound.closed_or_open (h : t.Sound) (hf : f < t.issued) :
    (t.closed.count f = 1 ∧ ∀ fd, t.file fd ≠ some f) ∨
      (f ∉ t.closed ∧ ∃ fd, t.file fd = some f) := by
  rcases h.total f hf with hclosed | ⟨fd, hfd⟩
  · exact Or.inl ⟨List.count_eq_one_of_mem h.nodup hclosed, fun fd hfd => h.not_closed hfd hclosed⟩
  · exact Or.inr ⟨h.not_closed hfd, fd, hfd⟩

end FdTable
