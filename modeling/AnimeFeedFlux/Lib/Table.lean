import Mathlib.Data.List.Nodup
import Mathlib.Data.List.Pairwise

/-!
# Tables with an id and a unique column

The rows of a table with an `INTEGER PRIMARY KEY` and a `UNIQUE` column, in the order of
their ids.  The two constraints are fields, so a table that breaks them cannot be built, and
every operation below carries the proof that it keeps them.
-/

namespace AnimeFeedFlux

open List

/-- **A search that selects one key at most** finds whatever it selects. -/
theorem find?_eq_some_of_nodup {α κ : Type} {f : α → κ} {l : List α} (hl : (l.map f).Nodup)
    {p : α → Bool} {k : κ} (hp : ∀ a, p a → f a = k) {a : α} :
    l.find? p = some a ↔ a ∈ l ∧ p a := by
  constructor
  · intro h
    exact ⟨mem_of_find?_eq_some h, find?_some h⟩
  rintro ⟨ha, hpa⟩
  cases hfind : l.find? p with
  | none => exact absurd hpa (find?_eq_none.1 hfind a ha)
  | some b =>
    have hkey : f b = f a := (hp b (find?_some hfind)).trans (hp a hpa).symm
    rw [inj_on_of_nodup_map hl (mem_of_find?_eq_some hfind) ha hkey]

/-- Rows with increasing ids and distinct keys. -/
structure Table {α κ : Type} (id : α → ℕ) (key : α → κ) where
  rows : List α
  sorted : (rows.map id).Pairwise (· < ·)
  unique : (rows.map key).Nodup

namespace Table

variable {α κ : Type} {id : α → ℕ} {key : α → κ}

@[ext] theorem ext {t u : Table id key} (h : t.rows = u.rows) : t = u := by
  cases t; cases u
  congr

instance [DecidableEq α] : DecidableEq (Table id key) :=
  fun _ _ => decidable_of_iff _ Table.ext_iff.symm

/-- No rows. -/
def empty : Table id key := ⟨[], List.Pairwise.nil, List.nodup_nil⟩

section
variable (t : Table id key)

/-- SQLite's choice of a new id: one past the largest. -/
def nextID : ℕ :=
  match t.rows.getLast? with
  | some r => id r + 1
  | none => 1

theorem id_lt_nextID {a : α} (ha : a ∈ t.rows) : id a < t.nextID := by
  obtain ⟨rows, sorted, unique⟩ := t
  rcases eq_nil_or_concat rows with rfl | ⟨init, last, rfl⟩
  · cases ha
  have hnext : nextID ⟨_, sorted, unique⟩ = id last + 1 := by simp [nextID]
  rw [hnext]
  rw [concat_eq_append, map_append, pairwise_append] at sorted
  replace ha : a ∈ init.concat last := ha
  rw [concat_eq_append] at ha
  rcases mem_append.1 ha with hmem | hmem
  · have := sorted.2.2 (id a) (mem_map_of_mem hmem) (id last) (by simp)
    omega
  · rw [mem_singleton.1 hmem]
    exact Nat.lt_succ_self _

theorem nodup_ids : (t.rows.map id).Nodup :=
  t.sorted.imp fun hlt => Nat.ne_of_lt hlt

theorem eq_of_id {a b : α} (ha : a ∈ t.rows) (hb : b ∈ t.rows)
    (h : id a = id b) : a = b :=
  inj_on_of_nodup_map t.nodup_ids ha hb h

theorem eq_of_key {a b : α} (ha : a ∈ t.rows) (hb : b ∈ t.rows)
    (h : key a = key b) : a = b :=
  inj_on_of_nodup_map t.unique ha hb h

end

section Insert

variable [DecidableEq κ]

/-- `INSERT`: the row `mk` builds for the next id, refused when its key is taken. -/
def insert (t : Table id key) (mk : ℕ → α) (hid : ∀ n, id (mk n) = n) : Option (Table id key) :=
  if h : key (mk t.nextID) ∈ t.rows.map key then none
  else some {
    rows := t.rows ++ [mk t.nextID]
    sorted := by
      rw [List.map_append, List.pairwise_append]
      refine ⟨t.sorted, List.pairwise_singleton _ _, ?_⟩
      intro a ha b hb
      obtain ⟨r, hr, rfl⟩ := List.mem_map.1 ha
      rw [List.map_singleton, List.mem_singleton, hid] at hb
      exact hb ▸ t.id_lt_nextID hr
    unique := by
      rw [List.map_append, List.nodup_append]
      refine ⟨t.unique, List.nodup_singleton _, ?_⟩
      intro a ha b hb
      rw [List.map_singleton, List.mem_singleton] at hb
      rintro rfl
      exact h (hb ▸ ha) }

variable {t u : Table id key} {mk : ℕ → α} {hid : ∀ n, id (mk n) = n}

theorem insert_eq_some : t.insert mk hid = some u ↔
      key (mk t.nextID) ∉ t.rows.map key ∧ u.rows = t.rows ++ [mk t.nextID] := by
  unfold insert
  by_cases h : key (mk t.nextID) ∈ t.rows.map key
  · simp [h]
  · simp [h, Table.ext_iff, eq_comm]

theorem mem_insert (h : t.insert mk hid = some u) {a : α} :
    a ∈ u.rows ↔ a ∈ t.rows ∨ a = mk t.nextID := by
  rw [(insert_eq_some.1 h).2, mem_append, mem_singleton]

end Insert

/-- `UPDATE … WHERE`: the rows `p` selects are rewritten by `f`, which keeps ids and keys. -/
def modify (t : Table id key) (p : α → Bool) (f : α → α) (hid : ∀ a, id (f a) = id a)
    (hkey : ∀ a, key (f a) = key a) : Table id key where
  rows := t.rows.map fun a => if p a then f a else a
  sorted := by
    rw [List.map_map]
    convert t.sorted using 2
    ext a
    by_cases h : p a <;> simp [h, hid]
  unique := by
    rw [List.map_map]
    convert t.unique using 2
    ext a
    by_cases h : p a <;> simp [h, hkey]

@[simp] theorem modify_rows (t : Table id key) (p : α → Bool) (f : α → α)
    (hid : ∀ a, id (f a) = id a) (hkey : ∀ a, key (f a) = key a) :
    (t.modify p f hid hkey).rows = t.rows.map fun a => if p a then f a else a := rfl

variable {t : Table id key} {a : α}

theorem mem_modify {p : α → Bool} {f : α → α} {hid : ∀ a, id (f a) = id a}
    {hkey : ∀ a, key (f a) = key a} {b : α} :
    b ∈ (t.modify p f hid hkey).rows ↔ ∃ a ∈ t.rows, (if p a then f a else a) = b := by
  rw [modify_rows, mem_map]

/-- The row with the id `n`. -/
def byID (t : Table id key) (n : ℕ) : Option α := t.rows.find? fun a => id a == n

theorem byID_eq_some {n : ℕ} : t.byID n = some a ↔ a ∈ t.rows ∧ id a = n := by
  rw [byID, find?_eq_some_of_nodup t.nodup_ids fun _ => beq_iff_eq.1, beq_iff_eq]

/-- The row with the key `k`. -/
def byKey [DecidableEq κ] (t : Table id key) (k : κ) : Option α :=
  t.rows.find? fun a => key a == k

theorem byKey_eq_some [DecidableEq κ] {k : κ} : t.byKey k = some a ↔ a ∈ t.rows ∧ key a = k := by
  rw [byKey, find?_eq_some_of_nodup t.unique fun _ => beq_iff_eq.1, beq_iff_eq]

end Table

end AnimeFeedFlux
