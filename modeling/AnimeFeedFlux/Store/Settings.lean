import Mathlib.Data.Rat.Lemmas

/-!
# The generation settings row

The kill switch and the global ceilings live as one JSON object under the key `generation`
of the settings table.  `Generation` is that section's message type; `marshal` and
`unmarshal` are `encoding/json` on it.  Every field carries `omitempty`, so a zero is
written as an absent key, and reading starts from the zero value.

Reading back what was written gives the same settings (`unmarshal_marshal`).
-/

namespace AnimeFeedFlux

/-- A JSON value inside an object.  A number literal with a fraction or an exponent is a
`decimal`: it does not fit an integer field whatever its value. -/
inductive JsonValue
  | null
  | bool (b : Bool)
  | integer (n : ℤ)
  | decimal (q : ℚ)
  /-- A string, an array or an object. -/
  | other
  deriving DecidableEq, Repr

/-- The text of a settings row. -/
inductive SettingValue
  /-- Not JSON. -/
  | invalid
  | null
  | object (fields : List (String × JsonValue))
  /-- JSON that is neither an object nor `null`. -/
  | other
  deriving DecidableEq, Repr

/-- `affv1.Settings_Generation`. -/
structure Generation where
  enabled : Bool := false
  globalDailyTokenCeiling : Int64 := 0
  globalDailySpendCeilingUsd : ℚ := 0
  defaultDailyTokenBudget : Int64 := 0
  defaultDailyRunBudget : Int32 := 0
  defaultFeedWindow : Int32 := 0
  stalenessThresholdMinutes : Int32 := 0
  deriving DecidableEq, Repr

namespace Generation

/-- The fields, under their JSON tags. -/
inductive Field
  | enabled
  | globalDailyTokenCeiling
  | globalDailySpendCeilingUsd
  | defaultDailyTokenBudget
  | defaultDailyRunBudget
  | defaultFeedWindow
  | stalenessThresholdMinutes
  deriving DecidableEq, Repr

/-- The `json` tag. -/
def Field.tag : Field → String
  | enabled => "enabled"
  | globalDailyTokenCeiling => "global_daily_token_ceiling"
  | globalDailySpendCeilingUsd => "global_daily_spend_ceiling_usd"
  | defaultDailyTokenBudget => "default_daily_token_budget"
  | defaultDailyRunBudget => "default_daily_run_budget"
  | defaultFeedWindow => "default_feed_window"
  | stalenessThresholdMinutes => "staleness_threshold_minutes"

/-- The fields in declaration order. -/
def Field.all : List Field :=
  [enabled, globalDailyTokenCeiling, globalDailySpendCeilingUsd, defaultDailyTokenBudget,
   defaultDailyRunBudget, defaultFeedWindow, stalenessThresholdMinutes]

/-! ## Writing -/

/-- How `encoding/json` writes a `float64`: a whole number below `1e21` has neither fraction
nor exponent. -/
def floatValue (q : ℚ) : JsonValue :=
  if q.den = 1 ∧ q.num.natAbs < 10 ^ 21 then .integer q.num else .decimal q

/-- A field that is left out when it is zero. -/
def omitempty (isZero : Bool) (f : Field) (v : JsonValue) : List (String × JsonValue) :=
  if isZero then [] else [(f.tag, v)]

def marshal (g : Generation) : SettingValue :=
  .object <|
    omitempty (!g.enabled) .enabled (.bool g.enabled) ++
    (omitempty (g.globalDailyTokenCeiling == 0) .globalDailyTokenCeiling
      (.integer g.globalDailyTokenCeiling.toInt) ++
    (omitempty (g.globalDailySpendCeilingUsd == 0) .globalDailySpendCeilingUsd
      (floatValue g.globalDailySpendCeilingUsd) ++
    (omitempty (g.defaultDailyTokenBudget == 0) .defaultDailyTokenBudget
      (.integer g.defaultDailyTokenBudget.toInt) ++
    (omitempty (g.defaultDailyRunBudget == 0) .defaultDailyRunBudget
      (.integer g.defaultDailyRunBudget.toInt) ++
    (omitempty (g.defaultFeedWindow == 0) .defaultFeedWindow
      (.integer g.defaultFeedWindow.toInt) ++
    (omitempty (g.stalenessThresholdMinutes == 0) .stalenessThresholdMinutes
      (.integer g.stalenessThresholdMinutes.toInt) ++ []))))))

/-! ## Reading -/

/-- An integer literal into a 64-bit field. -/
def readInt64 : JsonValue → Option Int64
  | .integer n => if -2 ^ 63 ≤ n ∧ n < 2 ^ 63 then some (.ofInt n) else none
  | _ => none

/-- An integer literal into a 32-bit field. -/
def readInt32 : JsonValue → Option Int32
  | .integer n => if -2 ^ 31 ≤ n ∧ n < 2 ^ 31 then some (.ofInt n) else none
  | _ => none

/-- A number literal into a `float64` field. -/
def readFloat : JsonValue → Option ℚ
  | .integer n => some n
  | .decimal q => some q
  | _ => none

/-- Storing a value in a field: `null` leaves it as it is, a value of the wrong kind is an
error. -/
def set (g : Generation) (f : Field) (v : JsonValue) : Option Generation :=
  if v = .null then some g
  else match f with
    | .enabled => match v with
      | .bool b => some { g with enabled := b }
      | _ => none
    | .globalDailyTokenCeiling =>
      (readInt64 v).map fun n => { g with globalDailyTokenCeiling := n }
    | .globalDailySpendCeilingUsd =>
      (readFloat v).map fun q => { g with globalDailySpendCeilingUsd := q }
    | .defaultDailyTokenBudget =>
      (readInt64 v).map fun n => { g with defaultDailyTokenBudget := n }
    | .defaultDailyRunBudget => (readInt32 v).map fun n => { g with defaultDailyRunBudget := n }
    | .defaultFeedWindow => (readInt32 v).map fun n => { g with defaultFeedWindow := n }
    | .stalenessThresholdMinutes =>
      (readInt32 v).map fun n => { g with stalenessThresholdMinutes := n }

/-- The field a key names: an exact match, otherwise a match up to `fold`, the case folding
of `encoding/json`. -/
def fieldFor (fold : String → String) (key : String) : Option Field :=
  (Field.all.find? fun f => f.tag == key).or (Field.all.find? fun f => fold f.tag == fold key)

/-- One key of the object; an unknown key is ignored. -/
def readField (fold : String → String) (g : Generation) (kv : String × JsonValue) :
    Option Generation :=
  match fieldFor fold kv.1 with
  | none => some g
  | some f => g.set f kv.2

/-- `json.Unmarshal` into a zero `Settings_Generation`; `none` is an error. -/
def unmarshal (fold : String → String) : SettingValue → Option Generation
  | .invalid => none
  | .null => some {}
  | .object fields => fields.foldlM (readField fold) {}
  | .other => none

/-! ## Reading back what was written -/

theorem readInt64_toInt (n : Int64) : readInt64 (.integer n.toInt) = some n := by
  have hlo := n.le_toInt
  have hhi := n.toInt_lt
  simp only [readInt64, Int64.ofInt_toInt]
  exact if_pos ⟨hlo, hhi⟩

theorem readInt32_toInt (n : Int32) : readInt32 (.integer n.toInt) = some n := by
  have hlo := n.le_toInt
  have hhi := n.toInt_lt
  simp only [readInt32, Int32.ofInt_toInt]
  exact if_pos ⟨hlo, hhi⟩

theorem readFloat_floatValue (q : ℚ) : readFloat (floatValue q) = some q := by
  simp only [floatValue]
  split_ifs with h
  · simp only [readFloat, Option.some.injEq]
    exact (Rat.den_eq_one_iff q).mp h.1
  · rfl

theorem floatValue_ne_null (q : ℚ) : floatValue q ≠ .null := by
  simp only [floatValue]
  split_ifs <;> simp

@[simp] theorem fieldFor_tag (fold : String → String) (f : Field) :
    fieldFor fold f.tag = some f := by
  have h : (Field.all.find? fun f' => f'.tag == f.tag) = some f := by cases f <;> decide
  simp [fieldFor, h]

/-- An optional field at the head of an object takes the settings from `g` to `g'`, when
writing it does and leaving it out means that there is nothing to change. -/
theorem foldlM_omitempty {fold : String → String} {isZero : Bool} {f : Field} {v : JsonValue}
    {rest : List (String × JsonValue)} {g : Generation} (g' : Generation)
    (hset : g.set f v = some g') (hskip : isZero → g' = g) :
    (omitempty isZero f v ++ rest).foldlM (readField fold) g = rest.foldlM (readField fold) g' := by
  cases isZero with
  | true => simp [omitempty, hskip rfl]
  | false => simp [omitempty, readField, hset]

/-- **What `marshal` writes, `unmarshal` reads back.** -/
theorem unmarshal_marshal (fold : String → String) (g : Generation) :
    unmarshal fold g.marshal = some g := by
  obtain ⟨e, t, u, dt, dr, w, s⟩ := g
  simp only [marshal, unmarshal]
  rw [foldlM_omitempty ⟨e, 0, 0, 0, 0, 0, 0⟩ rfl (by simp),
    foldlM_omitempty ⟨e, t, 0, 0, 0, 0, 0⟩ (by simp [set, readInt64_toInt]) (by simp),
    foldlM_omitempty ⟨e, t, u, 0, 0, 0, 0⟩
      (by simp [set, readFloat_floatValue, floatValue_ne_null]) (by simp),
    foldlM_omitempty ⟨e, t, u, dt, 0, 0, 0⟩ (by simp [set, readInt64_toInt]) (by simp),
    foldlM_omitempty ⟨e, t, u, dt, dr, 0, 0⟩ (by simp [set, readInt32_toInt]) (by simp),
    foldlM_omitempty ⟨e, t, u, dt, dr, w, 0⟩ (by simp [set, readInt32_toInt]) (by simp),
    foldlM_omitempty ⟨e, t, u, dt, dr, w, s⟩ (by simp [set, readInt32_toInt]) (by simp)]
  rfl

end Generation

end AnimeFeedFlux
