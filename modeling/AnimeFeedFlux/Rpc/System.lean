import AnimeFeedFlux.Rpc.Status

/-!
# The generation kill switch

Three functions read the `generation` row, and each has its own answer for a deployment
that has none: the settings screen and the budget gates seed the global ceilings, the
transaction of `SetGenerationEnabled` does not.  Zero means "no limit" to the gates, so the
first flip of the switch on such a deployment writes a row that lifts both ceilings.

With a row in place the three agree, and the flip changes the switch and nothing else.
-/

namespace AnimeFeedFlux

def defaultGlobalDailyTokenCeiling : Int64 := 2000000

def defaultGlobalDailySpendCeilingUSD : ℚ := 5

def defaultFeedDailyTokenBudget : Int64 := 100000

def defaultFeedDailyRunBudget : Int32 := 24

def defaultFeedWindowItems : Int32 := 50

/-- A reader of the `generation` row: `fallback` is what it answers when there is none. -/
def loadGeneration (fold : String → String) (fallback : Generation) (db : DB) :
    Except StoreError Generation :=
  match db.generation with
  | none => .ok fallback
  | some raw =>
    match Generation.unmarshal fold raw with
    | none => .error .badJSON
    | some g => .ok g

section
variable (fold : String → String) (default : Bool) (db : DB) (enabled : Bool)

/-- `SystemServer.sysLoadGeneration`; `default` is the process's `defaultGenerationEnabled`. -/
def sysLoadGeneration : Except StoreError Generation :=
  loadGeneration fold
    { enabled := default
      globalDailyTokenCeiling := defaultGlobalDailyTokenCeiling
      globalDailySpendCeilingUsd := defaultGlobalDailySpendCeilingUSD
      defaultDailyTokenBudget := defaultFeedDailyTokenBudget
      defaultDailyRunBudget := defaultFeedDailyRunBudget
      defaultFeedWindow := defaultFeedWindowItems } db

def sysLoadGenerationTx : Except StoreError Generation :=
  loadGeneration fold { enabled := default } db

/-- `loadGenerationSettings`, the reader of the budget gates. -/
def loadGenerationSettings : Except StoreError Generation :=
  loadGeneration fold
    { enabled := default
      globalDailyTokenCeiling := defaultGlobalDailyTokenCeiling
      globalDailySpendCeilingUsd := defaultGlobalDailySpendCeilingUSD } db

/-- `SystemServer.SetGenerationEnabled`: read, set the switch, write, in one transaction. -/
def setGenerationEnabled : Reply Bool :=
  match sysLoadGenerationTx fold default db with
  | .error e => (db, .error ⟨.internal, "rpc: parsing stored generation settings", some e⟩)
  | .ok g =>
    let g := { g with enabled }
    ({ db with generation := some g.marshal }, .ok g.enabled)

/-! ## What a flip changes -/

/-- The settings with the switch set. -/
def Generation.withEnabled (enabled : Bool) (g : Generation) : Generation := { g with enabled }

/-- Both readers of the effective settings see the old ones with the switch set. -/
def ChangesOnlySwitch : Prop :=
  let db' := (setGenerationEnabled fold default db enabled).1
  sysLoadGeneration fold default db' =
      (sysLoadGeneration fold default db).map (Generation.withEnabled enabled) ∧
    loadGenerationSettings fold default db' =
      (loadGenerationSettings fold default db).map (Generation.withEnabled enabled)

instance : Decidable (ChangesOnlySwitch fold default db enabled) := by
  unfold ChangesOnlySwitch
  infer_instance

end

section
variable {fold : String → String} {fallback : Generation} {db : DB}

theorem loadGeneration_marshal (g : Generation) :
    loadGeneration fold fallback { db with generation := some g.marshal } = .ok g := by
  simp [loadGeneration, Generation.unmarshal_marshal]

theorem loadGeneration_of_isSome (h : db.generation.isSome) (other : Generation) :
    loadGeneration fold fallback db = loadGeneration fold other db := by
  cases hrow : db.generation with
  | none => simp [hrow] at h
  | some raw => simp [loadGeneration, hrow]

/-- Over an existing row, any reader sees the old settings with the switch set, and a row
that does not parse stays as it is. -/
theorem loadGeneration_setGenerationEnabled (h : db.generation.isSome) (default enabled : Bool) :
    loadGeneration fold fallback (setGenerationEnabled fold default db enabled).1 =
      (loadGeneration fold fallback db).map (Generation.withEnabled enabled) := by
  rw [loadGeneration_of_isSome h { enabled := default }]
  simp only [setGenerationEnabled, sysLoadGenerationTx]
  cases hload : loadGeneration fold { enabled := default } db with
  | error e => rw [loadGeneration_of_isSome h { enabled := default }, hload]; rfl
  | ok g => exact loadGeneration_marshal _

end

/-- **Flipping the kill switch changes only the switch exactly when the `generation` row
exists.**  Without one, the flip writes a row with both global ceilings at zero. -/
theorem changesOnlySwitch_iff (fold : String → String) (default : Bool) (db : DB) (enabled : Bool) :
    ChangesOnlySwitch fold default db enabled ↔ db.generation.isSome := by
  constructor
  · intro h
    cases hrow : db.generation with
    | some raw => rfl
    | none =>
      have hgate := h.2
      simp only [loadGenerationSettings, setGenerationEnabled, sysLoadGenerationTx,
        Generation.unmarshal_marshal, loadGeneration, hrow, Except.map, Except.ok.injEq,
        Generation.withEnabled, Generation.mk.injEq] at hgate
      exact absurd hgate.2.1 (by decide)
  · intro h
    exact ⟨loadGeneration_setGenerationEnabled h _ _, loadGeneration_setGenerationEnabled h _ _⟩

/-- A fresh deployment, generation on: switching it off lifts the ceilings. -/
theorem not_changesOnlySwitch_fresh : ¬ChangesOnlySwitch id true {} false := by
  decide +kernel

end AnimeFeedFlux
