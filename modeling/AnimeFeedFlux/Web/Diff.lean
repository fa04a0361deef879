import AnimeFeedFlux.Lib.Bytes
import Mathlib.Order.Bounds.Defs

/-!
# The diff view

`web/pages/history/diff.go`: the revision history shows two versions of a field line by line.  A
table holds the length of a longest common subsequence of every two suffixes, filled from the end,
and a walk from the front follows it.  Two texts are not split when one has too many lines.
-/

namespace AnimeFeedFlux.History

open scoped List

inductive DiffOp
  | equal
  | delete
  | insert
  deriving DecidableEq, Repr

structure DiffLine where
  op : DiffOp
  text : Bytes
  deriving DecidableEq, Repr

def diffLineCap : ℕ := 4000

def newline : UInt8 := 10

def splitLines (s : Bytes) : List Bytes := if s = [] then [] else s.splitOn newline

/-- A row of the table from the row below it; `below` begins with the cell below the first. -/
def lcsRow (x : Bytes) : List Bytes → List ℕ → List ℕ
  | [], _ => [0]
  | y :: b, below =>
    let right := lcsRow x b below.tail
    let cell :=
      if x = y then below.getD 1 0 + 1
      else if right.getD 0 0 ≤ below.getD 0 0 then below.getD 0 0 else right.getD 0 0
    cell :: right

/-- The table. -/
def lcsTable : List Bytes → List Bytes → List (List ℕ)
  | [], b => [List.replicate (b.length + 1) 0]
  | x :: a, b => lcsRow x b ((lcsTable a b).getD 0 []) :: lcsTable a b

/-- `lcs[i][j]`. -/
def cell (lcs : List (List ℕ)) (i j : ℕ) : ℕ := (lcs.getD i []).getD j 0

/-- The walk from `i`, `j`, with the lines from there on. -/
def backtrack (lcs : List (List ℕ)) (i j : ℕ) : List Bytes → List Bytes → List DiffLine
  | x :: a, y :: b =>
    if x = y then ⟨.equal, x⟩ :: backtrack lcs (i + 1) (j + 1) a b
    else if cell lcs i (j + 1) ≤ cell lcs (i + 1) j then
      ⟨.delete, x⟩ :: backtrack lcs (i + 1) j a (y :: b)
    else ⟨.insert, y⟩ :: backtrack lcs i (j + 1) (x :: a) b
  | [], b => b.map (⟨.insert, ·⟩)
  | a, [] => a.map (⟨.delete, ·⟩)
termination_by a b => a.length + b.length

def diffLines (before after : Bytes) : List DiffLine :=
  let a := splitLines before
  let b := splitLines after
  if diffLineCap < a.length ∨ diffLineCap < b.length then
    if before ≠ after then [⟨.delete, before⟩, ⟨.insert, after⟩] else [⟨.equal, before⟩]
  else backtrack (lcsTable a b) 0 0 a b

/-- `FieldDiff.Changed`. -/
def changed (lines : List DiffLine) : Bool := lines.any (·.op ≠ .equal)

/-! ## The property -/

/-- The lines that are not of this kind. -/
def without (op : DiffOp) (lines : List DiffLine) : List Bytes :=
  (lines.filter (·.op ≠ op)).map (·.text)

/-- The lengths of the common subsequences. -/
def commonLengths (a b : List Bytes) : Set ℕ := {n | ∃ s, s <+ a ∧ s <+ b ∧ s.length = n}

/-- A diff shows both texts, no change without a difference, and as few changes as possible. -/
structure Shows (before after : Bytes) (lines : List DiffLine) : Prop where
  old : [newline].intercalate (without .insert lines) = before
  new : [newline].intercalate (without .delete lines) = after
  changed : changed lines = true ↔ before ≠ after
  minimal : (splitLines before).length ≤ diffLineCap → (splitLines after).length ≤ diffLineCap →
    IsGreatest (commonLengths (splitLines before) (splitLines after))
      (lines.countP (·.op = .equal))

theorem intercalate_splitLines (s : Bytes) : [newline].intercalate (splitLines s) = s := by
  rw [splitLines]
  split
  · rename_i hnil
    rw [hnil]
    rfl
  · exact List.intercalate_splitOn newline

/-! ## Longest common subsequences -/

/-- The length of a longest common subsequence. -/
def longest : List Bytes → List Bytes → ℕ
  | x :: a, y :: b =>
    if x = y then longest a b + 1 else max (longest a (y :: b)) (longest (x :: a) b)
  | [], _ => 0
  | _, [] => 0
termination_by a b => a.length + b.length

theorem length_le_longest {s a b : List Bytes} (ha : s <+ a) (hb : s <+ b) :
    s.length ≤ longest a b := by
  fun_induction longest a b generalizing s with
  | case1 a y b ih =>
    have htail := ih ha.tail hb.tail
    rw [List.length_tail] at htail
    omega
  | case2 x a y b hne ihdel ihins =>
    rcases List.sublist_cons_iff.1 ha with ha' | ⟨s', rfl, -⟩
    · exact Nat.le_trans (ihdel ha' hb) (Nat.le_max_left ..)
    rcases List.sublist_cons_iff.1 hb with hb' | ⟨s'', heq, -⟩
    · exact Nat.le_trans (ihins ha hb') (Nat.le_max_right ..)
    · exact absurd (List.cons.inj heq).1 hne
  | case3 b => simpa using ha
  | case4 a => simpa using hb

theorem getD_lcsRow {x : Bytes} {a b : List Bytes} {below : List ℕ}
    (h : ∀ j, below.getD j 0 = longest a (b.drop j)) (j : ℕ) :
    (lcsRow x b below).getD j 0 = longest (x :: a) (b.drop j) := by
  induction b generalizing below j with
  | nil => cases j <;> simp [lcsRow, longest]
  | cons y b ih =>
    have hright : ∀ j, (lcsRow x b below.tail).getD j 0 = longest (x :: a) (b.drop j) := by
      refine ih fun j => ?_
      rw [← List.drop_succ_cons (a := y), ← h]
      cases below <;> rfl
    cases j with
    | zero =>
      have hbelow : below.getD 0 0 = longest a (y :: b) := h 0
      have hdiagonal : below.getD 1 0 = longest a b := h 1
      have hfirst : (lcsRow x b below.tail).getD 0 0 = longest (x :: a) b := hright 0
      simp only [lcsRow, List.getD_cons_zero, List.drop_zero, hbelow, hdiagonal, hfirst]
      rw [longest.eq_1]
      split
      · rfl
      · split <;> omega
    | succ j => exact hright j

/-- **Every cell of the table** has the length for the suffixes from there on. -/
theorem cell_lcsTable (a b : List Bytes) (i j : ℕ) :
    cell (lcsTable a b) i j = longest (a.drop i) (b.drop j) := by
  induction a generalizing i j with
  | nil =>
    rw [List.drop_nil, longest.eq_2]
    cases i with
    | zero =>
      rw [cell, lcsTable, List.getD_cons_zero, List.getD_eq_getElem?_getD, List.getElem?_replicate]
      split <;> rfl
    | succ i => rfl
  | cons x a ih =>
    cases i with
    | zero => exact getD_lcsRow (ih 0) j
    | succ i => exact ih i j

/-! ## The walk -/

section
variable (lcs : List (List ℕ)) (i j : ℕ) (a b : List Bytes)

theorem without_insert_backtrack : without .insert (backtrack lcs i j a b) = a := by
  fun_induction backtrack lcs i j a b <;> simp_all [without, List.filter_map, Function.comp_def]

theorem without_delete_backtrack : without .delete (backtrack lcs i j a b) = b := by
  fun_induction backtrack lcs i j a b <;> simp_all [without, List.filter_map, Function.comp_def]

theorem backtrack_self : backtrack lcs i j a a = a.map (⟨.equal, ·⟩) := by
  induction a generalizing i j with
  | nil => simp [backtrack]
  | cons x a ih => simp [backtrack, ih]

theorem changed_backtrack : changed (backtrack lcs i j a b) ↔ a ≠ b := by
  constructor
  · rintro h rfl
    simp [backtrack_self, changed] at h
  · intro hne
    by_contra hsame
    have hequal : ∀ l ∈ backtrack lcs i j a b, l.op = .equal := by simpa [changed] using hsame
    refine hne ?_
    calc a = without .insert (backtrack lcs i j a b) := (without_insert_backtrack ..).symm
      _ = without .delete (backtrack lcs i j a b) :=
        congrArg (List.map _) (List.filter_congr fun l hl => by rw [hequal l hl]; rfl)
      _ = b := without_delete_backtrack ..

variable {lcs i j a b}

theorem countP_backtrack (h : ∀ k l, cell lcs (i + k) (j + l) = longest (a.drop k) (b.drop l)) :
    (backtrack lcs i j a b).countP (·.op = .equal) = longest a b := by
  fun_induction backtrack lcs i j a b with
  | case1 i j a y b ih =>
    rw [longest.eq_1, if_pos rfl, List.countP_cons_of_pos rfl, ih fun k l => ?_]
    have hnext := h (k + 1) (l + 1)
    rwa [← Nat.add_assoc, ← Nat.add_assoc, Nat.add_right_comm i, Nat.add_right_comm j] at hnext
  | case2 i j x a y b hne hle ih =>
    have hright : cell lcs i (j + 1) = longest (x :: a) b := h 0 1
    have hbelow : cell lcs (i + 1) j = longest a (y :: b) := h 1 0
    rw [hright, hbelow] at hle
    rw [longest.eq_1, if_neg hne, Nat.max_eq_left hle, List.countP_cons_of_neg (by simp),
      ih fun k l => ?_]
    have hnext := h (k + 1) l
    rwa [← Nat.add_assoc, Nat.add_right_comm] at hnext
  | case3 i j x a y b hne hlt ih =>
    have hright : cell lcs i (j + 1) = longest (x :: a) b := h 0 1
    have hbelow : cell lcs (i + 1) j = longest a (y :: b) := h 1 0
    rw [hright, hbelow] at hlt
    rw [longest.eq_1, if_neg hne, Nat.max_eq_right (Nat.le_of_not_le hlt),
      List.countP_cons_of_neg (by simp), ih fun k l => ?_]
    have hnext := h k (l + 1)
    rwa [← Nat.add_assoc, Nat.add_right_comm j] at hnext
  | case4 i j b => simp [longest]
  | case5 i j a hne => simp [longest]

end

theorem equal_sublist_without (op : DiffOp) (hop : op ≠ .equal) (lines : List DiffLine) :
    (lines.filter (·.op = .equal)).map (·.text) <+ without op lines := by
  refine List.Sublist.map _ (List.monotone_filter_right _ fun l hl => ?_)
  rw [decide_eq_true_eq] at hl ⊢
  rw [hl]
  exact hop.symm

/-- **The diff view is right.** -/
theorem shows_diffLines (before after : Bytes) : Shows before after (diffLines before after) := by
  rw [diffLines]
  split
  · rename_i hcap
    have hlong : (splitLines before).length ≤ diffLineCap →
        (splitLines after).length ≤ diffLineCap → False := by omega
    split
    · rename_i hne
      exact ⟨by simp [without], by simp [without], by simp [changed, hne],
        fun ha hb => (hlong ha hb).elim⟩
    · rename_i heq
      obtain rfl := not_ne_iff.1 heq
      exact ⟨by simp [without], by simp [without], by simp [changed],
        fun ha hb => (hlong ha hb).elim⟩
  generalize hlcs : lcsTable (splitLines before) (splitLines after) = lcs
  have hold := without_insert_backtrack lcs 0 0 (splitLines before) (splitLines after)
  have hnew := without_delete_backtrack lcs 0 0 (splitLines before) (splitLines after)
  refine ⟨?_, ?_, ?_, fun _ _ => ⟨?_, ?_⟩⟩
  · rw [hold, intercalate_splitLines]
  · rw [hnew, intercalate_splitLines]
  · rw [changed_backtrack]
    exact (Function.LeftInverse.injective intercalate_splitLines).ne_iff
  · have hdel := equal_sublist_without .insert (by decide)
      (backtrack lcs 0 0 (splitLines before) (splitLines after))
    have hins := equal_sublist_without .delete (by decide)
      (backtrack lcs 0 0 (splitLines before) (splitLines after))
    rw [hold] at hdel
    rw [hnew] at hins
    exact ⟨_, hdel, hins, by rw [List.length_map, List.countP_eq_length_filter]⟩
  · rintro _ ⟨s, ha, hb, rfl⟩
    rw [countP_backtrack fun k l => ?_]
    · exact length_le_longest ha hb
    · rw [Nat.zero_add, Nat.zero_add, ← hlcs, cell_lcsTable]

end AnimeFeedFlux.History
