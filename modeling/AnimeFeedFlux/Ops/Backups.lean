import AnimeFeedFlux.Schedule.Cron
import Mathlib.Data.Finset.Sort
import Mathlib.Order.Lattice.Nat

/-!
# Snapshots of a database

`internal/ops/backup.go` and `schedule.go`: snapshots are files `base-<19 digits>.db`, and several
databases may share a directory.  Retention asks of every file whether it is a snapshot of its own;
the age of the latest backup is read off the last name that matches `base-*.db`.

A file name is a list of characters, under the order in which Go compares strings; a byte that is
no text counts as the character with its code.  The base has no metacharacters of a pattern.
-/

namespace AnimeFeedFlux.Backups

open List

open Cron (atoi)

abbrev Name := List Char

def backupTimestampDigits : ℕ := 19

/-- What a snapshot's name begins with. -/
def stem (base : Name) : Name := base ++ ['-']

def extension : Name := ['.', 'd', 'b']

def isSnapshotName (name base : Name) : Bool :=
  name.length == (stem base).length + backupTimestampDigits + extension.length &&
    (stem base).isPrefixOf name && extension.isSuffixOf name &&
    ((name.take (name.length - extension.length)).drop (stem base).length).all Char.isDigit

variable (outDir : String) (dir : Finset Name) (base : Name) (keep : ℕ)

/-- `filepath.Glob` for `base-*.db`. -/
def glob : Finset Name :=
  dir.filter fun name => (stem base).length + extension.length ≤ name.length ∧
    stem base <+: name ∧ extension <:+ name

/-- `retainBackups`, as what it leaves of the directory. -/
def retainBackups : Finset Name :=
  let own := (glob dir base).filter fun name => isSnapshotName name base
  dir \ ((own.sort (· ≥ ·)).drop keep).toFinset

/-- A name without `base-` and `.db`. -/
def stamp (name base : Name) : Name :=
  let rest := if stem base <+: name then name.drop (stem base).length else name
  if extension <:+ rest then rest.take (rest.length - extension.length) else rest

/-- `time.Unix(0, 0)`. -/
def epoch : ℤ := 62135596800 * Time.second

/-- `latestBackupTime`; the directory is that of `outDir`. -/
def latestBackupTime : Except String ℤ :=
  if outDir = "" ∨ base = [] then .ok 0
  else match (glob dir base).sort.getLast? with
    | none => .ok 0
    | some name =>
      match atoi (stamp name base) with
      | none => .error ("ops: parsing backup timestamp from " ++ String.ofList name)
      | some nanos => .ok (epoch + nanos)

/-! ## The property and the condition -/

/-- The number that decimal digits spell. -/
def number (digits : List Char) : ℕ := digits.foldl (fun n c => 10 * n + (c.toNat - 48)) 0

/-- The timestamp of a snapshot. -/
def timestamp (name base : Name) : ℕ := number (stamp name base)

/-- The snapshots of this base. -/
def snapshots : Finset Name :=
  dir.filter fun name => isSnapshotName name base

/-- The latest timestamp. -/
def latest : ℕ := (snapshots dir base).sup (timestamp · base)

/-- Retention removes all but the `keep` latest snapshots, and freshness is that of the latest. -/
structure Agree : Prop where
  retained : retainBackups dir base keep = dir.filter fun name => ¬(isSnapshotName name base ∧
    keep ≤ {m ∈ snapshots dir base | timestamp name base < timestamp m base}.card)
  fresh : latestBackupTime outDir dir base =
    .ok (if snapshots dir base = ∅ then 0 else epoch + latest dir base)

/-- The last name that matches is a snapshot, with a timestamp that is an `int64`, or spells the
timestamp of the latest snapshot in another way.  Without a directory or a base there is none. -/
def LastIsOwn : Prop :=
  if outDir = "" ∨ base = [] then snapshots dir base = ∅
  else ∀ last ∈ glob dir base, (∀ m ∈ glob dir base, m ≤ last) →
    isSnapshotName last base ∧ timestamp last base < 2 ^ 63 ∨
      snapshots dir base ≠ ∅ ∧ atoi (stamp last base) = some (latest dir base : ℤ)

/-! ## Names and timestamps -/

theorem isSnapshotName_iff {name base : Name} : isSnapshotName name base ↔
    ∃ digits, digits.length = 19 ∧ (∀ c ∈ digits, c.isDigit) ∧
      name = stem base ++ (digits ++ extension) := by
  simp only [isSnapshotName, backupTimestampDigits, Bool.and_eq_true, beq_iff_eq,
    List.isPrefixOf_iff_prefix, isSuffixOf_iff_suffix, all_eq_true]
  constructor
  · rintro ⟨⟨⟨hlen, ⟨rest, rfl⟩⟩, hsuffix⟩, hdigits⟩
    rw [suffix_iff_eq_drop, hlen, Nat.add_sub_cancel, drop_length_add_append] at hsuffix
    rw [hlen, Nat.add_sub_cancel, take_length_add_append, drop_left] at hdigits
    have hrest : rest.length = 19 + extension.length := by
      rw [length_append] at hlen
      omega
    refine ⟨rest.take 19, by simp [hrest], hdigits, ?_⟩
    rw [hsuffix, take_append_drop]
  · rintro ⟨digits, hlen, hdigits, rfl⟩
    refine ⟨⟨⟨by simp [hlen]; omega, prefix_append ..⟩, ?_⟩, ?_⟩
    · exact ⟨stem base ++ digits, by simp⟩
    · simpa [← append_assoc] using hdigits

theorem stamp_eq (base digits : Name) :
    stamp (stem base ++ (digits ++ extension)) base = digits := by
  simp [stamp]

theorem number_spec {digits : List Char} (h : ∀ c ∈ digits, c.isDigit) :
    number digits < 10 ^ digits.length ∧ Digits.pad digits.length (number digits) = digits := by
  induction digits using List.reverseRecOn with
  | nil => simp [number, Digits.pad]
  | append_singleton digits c ih =>
    obtain ⟨hlt, hpad⟩ := ih fun d hd => h d (mem_append_left _ hd)
    have hc := h c (mem_append_right _ (mem_singleton_self c))
    have hnumber : number (digits ++ [c]) = 10 * number digits + (c.toNat - 48) := by
      simp [number]
    obtain ⟨hlow, hhigh⟩ : 48 ≤ c.toNat ∧ c.toNat ≤ 57 := by
      simpa [Char.isDigit, UInt32.le_iff_toNat_le] using hc
    rw [hnumber, length_append, length_singleton, pow_succ, Digits.pad]
    have hdiv : (10 * number digits + (c.toNat - 48)) / 10 = number digits := by omega
    have hmod : (10 * number digits + (c.toNat - 48)) % 10 = c.toNat - 48 := by omega
    rw [hdiv, hmod, hpad, Digits.digit, Nat.add_sub_cancel' hlow, Char.ofNat_toNat]
    exact ⟨by omega, rfl⟩

theorem atoi_eq {digits : List Char} (h : ∀ c ∈ digits, c.isDigit) (hne : digits ≠ []) :
    atoi digits = if number digits < 2 ^ 63 then some (number digits : ℤ) else none := by
  have hcast : digits.foldl (fun (n : ℤ) c => 10 * n + (c.toNat - 48 : ℕ)) 0 = number digits :=
    foldl_hom Nat.cast fun n c => by push_cast; rfl
  cases digits with
  | nil => exact absurd rfl hne
  | cons c digits =>
    have hc := h c (mem_cons_self ..)
    have hminus : c ≠ '-' := by
      rintro rfl
      cases hc
    have hplus : c ≠ '+' := by
      rintro rfl
      cases hc
    have hall : ((c :: digits).all Char.isDigit) = true := all_eq_true.2 h
    simp only [atoi]
    split
    · rename_i heq
      exact absurd (List.cons.inj heq).1 hminus
    · rename_i heq
      exact absurd (List.cons.inj heq).1 hplus
    · simp only [hcast, hall, head?_cons, Option.some.injEq, hminus, if_false, ne_eq,
        reduceCtorEq, not_false_eq_true, true_and]
      refine if_congr ?_ rfl rfl
      omega

theorem lt_iff_timestamp {m n base : Name} (hm : isSnapshotName m base)
    (hn : isSnapshotName n base) : m < n ↔ timestamp m base < timestamp n base := by
  obtain ⟨ds, hds, hdigits, rfl⟩ := isSnapshotName_iff.1 hm
  obtain ⟨es, hes, hdigits', rfl⟩ := isSnapshotName_iff.1 hn
  obtain ⟨hlt, hpad⟩ := number_spec hdigits
  obtain ⟨hlt', hpad'⟩ := number_spec hdigits'
  rw [hds] at hlt hpad
  rw [hes] at hlt' hpad'
  have hnames : stem base ++ (ds ++ extension) < stem base ++ (es ++ extension) ↔ ds < es := by
    simp [Digits.append_lt_append_iff, hds, hes]
  rw [hnames, timestamp, timestamp, stamp_eq, stamp_eq]
  refine ⟨fun h => ?_, fun h => by rw [← hpad, ← hpad']; exact Digits.pad_lt h hlt'⟩
  by_contra hle
  rcases Nat.lt_or_eq_of_le (not_lt.1 hle) with hgt | heq
  · have := Digits.pad_lt hgt hlt
    rw [hpad, hpad'] at this
    exact lt_asymm h this
  · rw [← hpad, ← hpad', heq] at h
    exact lt_irrefl _ h

/-! ## Retention -/

section
variable {α : Type} [LinearOrder α]

theorem mem_drop_iff {l : List α} (hl : l.Pairwise (· > ·)) {k : ℕ} {x : α} :
    x ∈ l.drop k ↔ x ∈ l ∧ k ≤ l.countP (x < ·) := by
  induction l generalizing k with
  | nil => simp
  | cons y l ih =>
    obtain ⟨hy, hl⟩ := pairwise_cons.1 hl
    cases k with
    | zero => simp
    | succ k =>
      rw [drop_succ_cons, ih hl, mem_cons, countP_cons]
      constructor
      · rintro ⟨hx, hk⟩
        exact ⟨.inr hx, by simpa [hy x hx] using hk⟩
      · rintro ⟨rfl | hx, hk⟩
        · have hnone : l.countP (x < ·) = 0 := by
            rw [countP_eq_zero]
            intro z hz
            simpa using (hy z hz).le
          simp [hnone] at hk
        · exact ⟨hx, by simpa [hy x hx] using hk⟩

theorem mem_drop_sort {s : Finset α} {x : α} (hx : x ∈ s) {p : α → Prop} [DecidablePred p]
    (hp : ∀ y ∈ s, x < y ↔ p y) (k : ℕ) :
    x ∈ (s.sort (· ≥ ·)).drop k ↔ k ≤ (s.filter p).card := by
  rw [mem_drop_iff s.sortedGT_sort.pairwise, and_iff_right ((Finset.mem_sort _).2 hx),
    ← Finset.filter_congr hp, countP_eq_length_filter,
    ← toFinset_card_of_nodup ((s.sort_nodup _).filter _), toFinset_filter,
    Finset.sort_toFinset]
  simp

end

theorem snapshots_glob :
    (glob dir base).filter (fun name => isSnapshotName name base) = snapshots dir base := by
  rw [glob, snapshots, Finset.filter_filter]
  refine Finset.filter_congr fun name _ => and_iff_right_of_imp fun h => ?_
  obtain ⟨digits, -, -, rfl⟩ := isSnapshotName_iff.1 h
  exact ⟨by simp, prefix_append .., ⟨stem base ++ digits, by simp⟩⟩

theorem retained_retainBackups :
    retainBackups dir base keep = dir.filter fun name => ¬(isSnapshotName name base ∧
      keep ≤ {m ∈ snapshots dir base | timestamp name base < timestamp m base}.card) := by
  ext name
  rw [retainBackups, snapshots_glob, Finset.mem_sdiff, mem_toFinset, Finset.mem_filter]
  refine and_congr_right fun hdir => not_congr ?_
  by_cases hown : isSnapshotName name base = true
  · rw [and_iff_right hown]
    exact mem_drop_sort (Finset.mem_filter.2 ⟨hdir, hown⟩)
      (fun m hm => lt_iff_timestamp hown (Finset.mem_filter.1 hm).2) keep
  · refine iff_of_false (fun hmem => hown ?_) (fun h => hown h.1)
    exact (Finset.mem_filter.1 ((Finset.mem_sort _).1 (mem_of_mem_drop hmem))).2

/-! ## Freshness -/

theorem getLast?_sort {α : Type} [LinearOrder α] (s : Finset α) :
    s = ∅ ∧ s.sort.getLast? = none ∨ ∃ x ∈ s, (∀ y ∈ s, y ≤ x) ∧ s.sort.getLast? = some x := by
  cases hlast : s.sort.getLast? with
  | none =>
    refine .inl ⟨?_, rfl⟩
    rw [← s.sort_toFinset (· ≤ ·), getLast?_eq_none_iff.1 hlast, toFinset_nil]
  | some x =>
    obtain ⟨ys, hys⟩ := getLast?_eq_some_iff.1 hlast
    have hsorted := s.pairwise_sort (· ≤ ·)
    rw [hys, pairwise_append] at hsorted
    have hmem : ∀ y, y ∈ s ↔ y ∈ ys ∨ y = x := by
      intro y
      rw [← Finset.mem_sort (· ≤ ·), hys, mem_append, mem_singleton]
    refine .inr ⟨x, (hmem x).2 (.inr rfl), fun y hy => ?_, rfl⟩
    rcases (hmem y).1 hy with hy | rfl
    · exact hsorted.2.2 y hy x (mem_singleton_self x)
    · exact le_rfl

/-- What freshness looks at. -/
theorem latestBackupTime_cases {outDir : String} {base : Name} (h : ¬(outDir = "" ∨ base = []))
    (dir : Finset Name) :
    glob dir base = ∅ ∧ latestBackupTime outDir dir base = .ok 0 ∨
    ∃ last ∈ glob dir base, (∀ m ∈ glob dir base, m ≤ last) ∧
      ∀ t, latestBackupTime outDir dir base = .ok t ↔
        ∃ nanos, atoi (stamp last base) = some nanos ∧ t = epoch + nanos := by
  rw [latestBackupTime, if_neg h]
  rcases getLast?_sort (glob dir base) with ⟨hnone, hlast⟩ | ⟨last, hmem, hmax, hlast⟩
  · exact .inl ⟨hnone, by rw [hlast]⟩
  · refine .inr ⟨last, hmem, hmax, fun t => ?_⟩
    simp only [hlast]
    cases atoi (stamp last base) <;> simp [eq_comm]

theorem epoch_add_ne_zero {s : Name} {nanos : ℤ} (h : atoi s = some nanos) : 0 ≠ epoch + nanos := by
  obtain ⟨hvalid, hnanos⟩ := Option.ite_none_right_eq_some.1 h
  have hlow := hvalid.2.2.1
  rw [Option.some.inj hnanos] at hlow
  simp only [epoch, Time.second]
  omega

theorem mem_glob_of_snapshots {dir : Finset Name} {base name : Name}
    (h : name ∈ snapshots dir base) : name ∈ glob dir base := by
  rw [← snapshots_glob] at h
  exact (Finset.mem_filter.1 h).1

/-- If the last of the matching names is a snapshot, it is read, and it is the latest. -/
theorem atoi_last {dir : Finset Name} {base last : Name} (hmax : ∀ m ∈ glob dir base, m ≤ last)
    (hown : last ∈ snapshots dir base) (hrange : timestamp last base < 2 ^ 63) :
    atoi (stamp last base) = some (latest dir base : ℤ) := by
  have hlast := (Finset.mem_filter.1 hown).2
  have hlatest : latest dir base = timestamp last base := by
    refine le_antisymm (Finset.sup_le fun m hm => ?_) (Finset.le_sup (f := (timestamp · base)) hown)
    have hle := hmax m (mem_glob_of_snapshots hm)
    rw [← not_lt] at hle ⊢
    rwa [← lt_iff_timestamp hlast (Finset.mem_filter.1 hm).2]
  obtain ⟨digits, hlen, hdigits, rfl⟩ := isSnapshotName_iff.1 hlast
  rw [hlatest, timestamp] at *
  rw [stamp_eq] at *
  rw [atoi_eq hdigits (by rintro rfl; cases hlen), if_pos hrange]

/-- **Retention and freshness agree** exactly when the last matching name is a snapshot. -/
theorem agree_iff : Agree outDir dir base keep ↔ LastIsOwn outDir dir base := by
  have hfresh : Agree outDir dir base keep ↔ latestBackupTime outDir dir base =
      .ok (if snapshots dir base = ∅ then 0 else epoch + latest dir base) :=
    ⟨fun h => h.fresh, fun h => ⟨retained_retainBackups dir base keep, h⟩⟩
  rw [hfresh, LastIsOwn]
  by_cases hguard : outDir = "" ∨ base = []
  · have hpos : (0 : ℤ) ≠ epoch + latest dir base := by
      simp only [epoch, Time.second]
      omega
    rw [latestBackupTime, if_pos hguard, if_pos hguard]
    split <;> simp_all
  rw [if_neg hguard]
  rcases latestBackupTime_cases hguard dir with ⟨hglob, hzero⟩ | ⟨last, hlast, hmax, htime⟩
  · have hnone : snapshots dir base = ∅ := Finset.eq_empty_of_forall_notMem fun name hname =>
      Finset.notMem_empty name (hglob ▸ mem_glob_of_snapshots hname)
    simp [hzero, hnone, hglob]
  rw [htime]
  constructor
  · rintro ⟨nanos, hatoi, hsame⟩ last' hlast' hmax'
    obtain rfl := le_antisymm (hmax last' hlast') (hmax' last hlast)
    split at hsame
    · exact absurd hsame (epoch_add_ne_zero hatoi)
    · rename_i hne
      exact .inr ⟨hne, by rw [hatoi, add_left_cancel hsame]⟩
  · intro h
    obtain ⟨hne, hatoi⟩ : snapshots dir base ≠ ∅ ∧
        atoi (stamp last base) = some (latest dir base : ℤ) := by
      rcases h last hlast hmax with ⟨hown, hrange⟩ | hother
      · have hmem : last ∈ snapshots dir base :=
          Finset.mem_filter.2 ⟨(Finset.mem_filter.1 hlast).1, hown⟩
        exact ⟨Finset.ne_empty_of_mem hmem, atoi_last hmax hmem hrange⟩
      · exact hother
    exact ⟨_, hatoi, if_neg hne⟩

/-- A snapshot of another database. -/
def foreign : Name := "aff-test-0000000000000000007.db".toList

/-- **A snapshot of another database is taken for the latest**, and its name does not read. -/
theorem not_agree_foreign : ¬Agree "backups" {foreign} "aff".toList 1 := by
  intro h
  have hglob : glob {foreign} "aff".toList = {foreign} := by decide
  have hatoi : atoi (stamp foreign "aff".toList) = none := by decide
  have hfresh := h.fresh
  rw [latestBackupTime, if_neg (by decide), hglob, Finset.sort_singleton] at hfresh
  simp only [getLast?_singleton, hatoi] at hfresh
  cases hfresh

end AnimeFeedFlux.Backups
