import AnimeFeedFlux.Lib.Machine
import AnimeFeedFlux.Rpc.Revisions
import Mathlib.Data.List.Perm.Subperm

/-!
# The stamps of concurrent edits

The calls of one process that edit items.  Each draws its stamp under a lock and commits its edit
later, in a transaction of its own, so that edits may be committed in another order than they were
stamped, and other writes come between.
-/

namespace AnimeFeedFlux

open Machine List Paging

/-- The process: the store, the stamp of the last edit, the stamps drawn by calls that have not
committed yet, all the stamps so far and the recorded edits of an item. -/
structure Stamping where
  store : Editorial
  lastEditAt : ℤ := 0
  pending : List ℤ := []
  drawn : List ℤ := []
  edits : List (ℤ × List FieldChange) := []
  deriving DecidableEq, Repr

/-- What can happen. -/
inductive StampAct
  /-- A call draws its stamp, at the time `now`. -/
  | draw (now : ℤ)
  /-- The call with the stamp runs `itemApplyEdit`. -/
  | commit (at_ : ℤ) (old updated : Item) (expectedVersion : ℕ)
  /-- Another write, which leaves `item_revisions` as it is. -/
  | write (db : DB)
  deriving DecidableEq, Repr

/-- One step; `edits` follows the item `id`. -/
def Stamping.step (id : ℕ) (s : Stamping) : StampAct → Stamping
  | .draw now =>
    let at_ := editStamp s.lastEditAt now
    { s with lastEditAt := at_, pending := s.pending ++ [at_], drawn := s.drawn ++ [at_] }
  | .commit at_ old updated expectedVersion =>
    if at_ ∈ s.pending then
      let store := (itemApplyEdit s.store old updated expectedVersion at_).1
      { s with
        store
        pending := s.pending.erase at_
        edits := if old.id = id ∧ store.revisions ≠ s.store.revisions then
          s.edits ++ [(at_, itemDiff old updated)] else s.edits }
    else s
  | .write db => { s with store := { s.store with db } }

/-- Each recorded edit of the item is a group of its own, and the pages of `ListRevisions`, of any
size, list every one of them once, newest first. -/
def Stamping.Listed (id : ℕ) (s : Stamping) : Prop :=
  (∀ p ∈ s.edits, FourDigitYear p.1) →
    (∀ p ∈ s.edits, revisionGroup s.store id p.1 = p.2) ∧
    ∀ it, id ≠ 0 → itemLoadByID s.store.db id = .ok it → ∀ pageSize fuel, s.edits.length < fuel →
      ∃ revisions, walk (listRevisions s.store id pageSize) fuel none = .ok revisions ∧
        (revisions.map (·.at_)).Pairwise (· > ·) ∧ (revisions.map (·.edit)).Perm s.edits

/-- The stamps of the recorded edits and of the pending ones are different stamps that were
drawn. -/
structure Stamping.Inv (id : ℕ) (s : Stamping) : Prop where
  increasing : s.drawn.Pairwise (· < ·)
  stamps : ∀ at_ ∈ s.drawn, at_ ≤ s.lastEditAt ∧ at_ % 10 ≠ 0
  used : s.edits.map Prod.fst ++ s.pending <+~ s.drawn
  rows : itemRows s.store id = s.edits.flatMap fun p => p.2.map (Prod.mk p.1)
  changes : ∀ p ∈ s.edits, p.2 ≠ []

namespace Stamping

variable {id : ℕ} {s : Stamping}

theorem Inv.draw (h : s.Inv id) (now : ℤ) : (s.step id (.draw now)).Inv id := by
  have hlt := editStamp_lt s.lastEditAt now
  refine ⟨pairwise_append.2 ⟨h.increasing, pairwise_singleton _ _, fun a ha b hb => ?_⟩,
    fun at_ hat => ?_, ?_, h.rows, h.changes⟩
  · rw [mem_singleton.1 hb]
    exact lt_of_le_of_lt (h.stamps a ha).1 hlt
  · rcases mem_append.1 hat with hat | hat
    · exact ⟨(h.stamps at_ hat).1.trans hlt.le, (h.stamps at_ hat).2⟩
    · rw [mem_singleton.1 hat]
      exact ⟨le_rfl, editStamp_digit _ _⟩
  · simp only [step, ← append_assoc]
    exact (subperm_append_right _).2 h.used

/-- A write of the edit adds its rows to the history, whether or not the item reads back. -/
theorem Inv.commit (h : s.Inv id) {at_ : ℤ} (hat : at_ ∈ s.pending) (old updated : Item)
    (expectedVersion : ℕ) : (s.step id (.commit at_ old updated expectedVersion)).Inv id := by
  have hused : s.edits.map Prod.fst ++ [at_] ++ s.pending.erase at_ <+~ s.drawn := by
    rw [append_assoc, singleton_append]
    exact (((perm_cons_erase hat).symm.append_left _).subperm).trans h.used
  have hkept : s.edits.map Prod.fst ++ s.pending.erase at_ <+~ s.drawn :=
    ((sublist_append_left _ [at_]).append_right _).subperm.trans hused
  rw [step, if_pos hat]
  rcases itemApplyEdit_cases s.store old updated expectedVersion at_ with ⟨err, hfail⟩ | ⟨-, hedit⟩
  · simp only [hfail, ne_eq, not_true, and_false, if_false]
    exact ⟨h.increasing, h.stamps, hkept, h.rows, h.changes⟩
  have hrows := itemRows_edit s.store id old updated expectedVersion at_
  rw [h.rows] at hrows
  simp only [hedit]
  split
  · rename_i hown
    rw [if_pos hown.1] at hrows
    refine ⟨h.increasing, h.stamps, ?_, ?_, fun p hp => ?_⟩
    · simpa using hused
    · rw [hrows, flatMap_append, flatMap_singleton]
    · rcases mem_append.1 hp with hp | hp
      · exact h.changes p hp
      rw [mem_singleton.1 hp]
      intro hnone
      exact hown.2 (congrArg (recordRevisions s.store.revisions old.id at_) hnone)
  · rename_i hown
    refine ⟨h.increasing, h.stamps, hkept, ?_, h.changes⟩
    rw [hrows]
    by_cases hid : old.id = id
    · -- Nothing was recorded.
      have hsame : (s.store.edit old updated expectedVersion at_).revisions = s.store.revisions :=
        not_not.1 fun hne => hown ⟨hid, hne⟩
      rw [← hrows, itemRows, hsame]
      exact h.rows
    · rw [if_neg hid, append_nil]

theorem Inv.step (h : s.Inv id) (a : StampAct) : (s.step id a).Inv id := by
  cases a with
  | draw now => exact h.draw now
  | commit at_ old updated expectedVersion =>
    by_cases hat : at_ ∈ s.pending
    · exact h.commit hat old updated expectedVersion
    · rw [Stamping.step, if_neg hat]
      exact h
  | write db => exact ⟨h.increasing, h.stamps, h.used, h.rows, h.changes⟩

theorem Inv.textOrder (h : s.Inv id) {a b : ℤ} (ha : a ∈ s.drawn) (hb : b ∈ s.drawn)
    (hyear : FourDigitYear a) (hyear' : FourDigitYear b) : TextOrder a b :=
  textOrder_of_stamps hyear hyear' (h.stamps a ha).2 (h.stamps b hb).2

theorem Inv.listed (h : s.Inv id) : s.Listed id := by
  intro hyears
  obtain ⟨l, hperm, hsub⟩ := h.used
  have hdrawn : (s.edits.map Prod.fst ++ s.pending).Nodup :=
    hperm.nodup_iff.1 ((h.increasing.imp fun hlt => hlt.ne).sublist hsub)
  have hedits : EditRows s.store id s.edits := by
    refine ⟨h.rows, hdrawn.of_append_left, fun p hp => ⟨hyears p hp, ?_⟩, h.changes⟩
    refine (h.stamps p.1 (h.used.subset ?_)).2
    exact mem_append_left _ (mem_map_of_mem hp)
  exact ⟨fun p hp => hedits.revisionGroup_eq hp, fun it hid hload pageSize fuel hfuel =>
    hedits.walk_listRevisions hid hload pageSize hfuel⟩

end Stamping

/-- **Stamps group and sort the edits.**  In every run of one process, with any clock readings: the
stamps strictly increase in the order they are drawn, their texts compare as they do while the
years have four digits, and the history of an item without edits before shows each of its edits
once, as a group of its own, newest first. -/
theorem stamps_run (id : ℕ) {e : Editorial} (hfresh : ∀ r ∈ e.revisions, r.itemID ≠ id)
    (acts : List StampAct) :
    Always (Stamping.step id) (fun s => s.drawn.Pairwise (· < ·) ∧
      (∀ a ∈ s.drawn, ∀ b ∈ s.drawn, FourDigitYear a → FourDigitYear b → TextOrder a b) ∧
      s.Listed id) { store := e } acts := by
  have hstart : Stamping.Inv id { store := e } := by
    refine ⟨List.Pairwise.nil, by simp, Subperm.refl _, ?_, by simp⟩
    rw [itemRows, filter_eq_nil_iff.2 fun r hr => by simpa using hfresh r hr]
    rfl
  refine (always_of_step (fun s a hs => hs.step a) acts _ hstart).mono fun s hs => ?_
  exact ⟨hs.increasing, fun a ha b hb => hs.textOrder ha hb, hs.listed⟩

/-- An item under one of its titles. -/
def retitled (title : String) (version : ℕ) : Item :=
  { id := 1, feedID := 1, itemKey := "k", contentHash := ⟨"h"⟩, title, publishedAt := march2026
    origin := .manual, version }

/-- Two calls at the same clock reading.  The one that drew its stamp last commits first. -/
def swappedEdits : List StampAct :=
  [.draw march2026, .draw march2026, .commit (march2026 + 2) (retitled "T" 1) (retitled "U" 1) 1,
   .commit (march2026 + 1) (retitled "U" 2) (retitled "V" 2) 2]

theorem stamps_run_swapped :
    let s := exec (Stamping.step 1) { store := { db := { items := [retitled "T" 1] } } }
      swappedEdits
    s.Listed 1 ∧ s.edits =
      [(march2026 + 2, [.text .title "T" "U"]), (march2026 + 1, [.text .title "U" "V"])] :=
  ⟨(stamps_run 1 (e := { db := { items := [retitled "T" 1] } }) (by simp) swappedEdits).last.2.2,
    by decide +kernel⟩

end AnimeFeedFlux
