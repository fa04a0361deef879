import AnimeFeedFlux.Lib.Table
import AnimeFeedFlux.Store.Feeds

/-!
# The store's own item queries

`scanItem` reads every column of `items` that `model.Item` has a field for, `formats_json`
included.  The publish plane and the control plane have scans of their own (`scanItemRow`,
`itemLoadByID`) that leave that column out.
-/

namespace AnimeFeedFlux

open List

/-- `scanItem`, over the columns `itemColumns` lists. -/
def scanItem (row : Item) : Except StoreError Item :=
  if row.readable then .ok row else .error .badTime

namespace Store

/-- `Store.GetItem`: soft-deleted items are found too. -/
def getItem (db : DB) (itemKey : String) : Except StoreError Item :=
  match db.items.find? (·.itemKey == itemKey) with
  | none => .error .notFound
  | some row => scanItem row

end Store

theorem scanItem_ok {row it : Item} : scanItem row = .ok it ↔ row.readable ∧ it = row := by
  by_cases h : row.readable = true
  · simp [scanItem, h, eq_comm]
  · simp [scanItem, h]

/-! ## The constraints of `items` -/

/-- Ids and keys are unique, those of soft-deleted items included. -/
structure UniqueItems (db : DB) : Prop where
  ids : (db.items.map (·.id)).Nodup
  keys : (db.items.map (·.itemKey)).Nodup

instance (db : DB) : Decidable (UniqueItems db) :=
  decidable_of_iff ((db.items.map (·.id)).Nodup ∧ (db.items.map (·.itemKey)).Nodup)
    ⟨fun h => ⟨h.1, h.2⟩, fun h => ⟨h.ids, h.keys⟩⟩

namespace UniqueItems
variable {db : DB} (h : UniqueItems db)
include h

theorem eq_of_id {x y : Item} (hx : x ∈ db.items) (hy : y ∈ db.items) (hid : x.id = y.id) : x = y :=
  inj_on_of_nodup_map h.ids hx hy hid

theorem eq_of_selected {x y : Item} {id version : ℕ}
    (hx : db.items.find? (fun x => x.id == id && x.version == version) = some x)
    (hy : y ∈ db.items) (hid : y.id = id) : x = y ∧ x.id = id ∧ x.version = version := by
  have hp := find?_some hx
  simp only [Bool.and_eq_true, beq_iff_eq] at hp
  exact ⟨h.eq_of_id (mem_of_find?_eq_some hx) hy (hp.1.trans hid.symm), hp⟩

theorem eq_of_key {x y : Item} (hx : x ∈ db.items) (hy : y ∈ db.items)
    (hkey : x.itemKey = y.itemKey) : x = y :=
  inj_on_of_nodup_map h.keys hx hy hkey

theorem map {f : Item → Item} (hid : ∀ x, (f x).id = x.id) (hkey : ∀ x, (f x).itemKey = x.itemKey) :
    UniqueItems { db with items := db.items.map f } where
  ids := by simpa only [map_map, Function.comp_def, hid] using h.ids
  keys := by simpa only [map_map, Function.comp_def, hkey] using h.keys

/-- **`GetItem` finds the row of a key.** -/
theorem getItem_eq {row : Item} (hrow : row ∈ db.items) :
    Store.getItem db row.itemKey = scanItem row := by
  rw [Store.getItem, (find?_eq_some_of_nodup h.keys fun _ => beq_iff_eq.1).2
    ⟨hrow, beq_self_eq_true _⟩]

end UniqueItems

end AnimeFeedFlux
