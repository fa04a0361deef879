import AnimeFeedFlux.Schedule.Cron

/-!
# What a cron expression says

An item of a field is a star, a number or a range, with or without a step, and stands for the
values from its start, in steps, up to its end.  `Parse` accepts the expressions of five fields
whose items are of this form and in range, and gives each field the values of its items, with one
exception: the loop that marks the values adds the step to the last of them, and where that leaves
64 bits the counter comes out negative and the index panics.
-/

namespace AnimeFeedFlux.Cron

open GoStrings List Int

/-! ## The grammar -/

/-- A text without a step, and the range it stands for. -/
inductive Base (min max : ℤ) : List Char → ℤ → ℤ → Prop
  | star : Base min max ['*'] min max
  | number {s : List Char} {n : ℤ} (hdash : '-' ∉ s) (hn : atoi s = some n) : Base min max s n n
  | range {s t : List Char} {lo hi : ℤ} (hdash : '-' ∉ s) (hlo : atoi s = some lo)
      (hhi : atoi t = some hi) (hle : lo ≤ hi) : Base min max (s ++ '-' :: t) lo hi

/-- An item, with its range and its step. -/
inductive Item (min max : ℤ) : List Char → ℤ → ℤ → ℤ → Prop
  | plain {s : List Char} {lo hi : ℤ} (hslash : '/' ∉ s) (hbase : Base min max s lo hi) :
      Item min max s lo hi 1
  | stepped {s t : List Char} {lo hi step : ℤ} (hslash : '/' ∉ s) (hbase : Base min max s lo hi)
      (hstep : atoi t = some step) (hpos : 0 < step) : Item min max (s ++ '/' :: t) lo hi step

/-- An item whose values are in range. -/
structure InRange (min max : ℤ) (item : List Char) (lo hi step : ℤ) : Prop where
  item : Item min max item lo hi step
  low : min ≤ lo
  high : hi ≤ max

/-- The values of an item. -/
def Item.Value (lo hi step v : ℤ) : Prop := ∃ k : ℕ, v = lo + k * step ∧ v ≤ hi

/-- The last value and the step add up in 64 bits. -/
def Fits (lo hi step : ℤ) : Prop := hi - (hi - lo) % step + step < 2 ^ 63

/-! ## Texts -/

variable {c : Char} {base item : List Char} {min max lo hi step x v : ℤ}

theorem split_at {l : List Char} (h : c ∈ l) :
    c ∉ l.takeWhile (· ≠ c) ∧ l = l.takeWhile (· ≠ c) ++ c :: (l.dropWhile (· ≠ c)).drop 1 := by
  refine ⟨fun hc => by simpa using all_eq_true.1 all_takeWhile c hc, ?_⟩
  induction l with
  | nil => cases h
  | cons x l ih =>
    by_cases hx : x = c
    · simp [hx]
    have hl := ih ((mem_cons.1 h).resolve_left (Ne.symm hx))
    simpa [hx] using hl

theorem split_append {s : List Char} (h : c ∉ s) (t : List Char) :
    (s ++ c :: t).takeWhile (· ≠ c) = s ∧ ((s ++ c :: t).dropWhile (· ≠ c)).drop 1 = t := by
  have hs : ∀ x ∈ s, (decide (x ≠ c)) = true := by
    intro x hx
    rw [decide_eq_true_eq]
    rintro rfl
    exact h hx
  rw [takeWhile_append_of_pos hs, dropWhile_append_of_pos hs]
  simp

theorem parseRange_ok : parseRange base min max = .ok (lo, hi) ↔ Base min max base lo hi := by
  constructor
  · intro h
    simp only [parseRange] at h
    split at h
    · rename_i hstar
      cases h
      exact hstar ▸ .star
    split at h
    · rename_i hdash
      obtain ⟨hs, hsplit⟩ := split_at hdash
      split at h
      · cases h
      · cases h
      · rename_i a b hlo hhi
        split at h
        · cases h
        cases h
        rw [hsplit]
        exact .range hs hlo hhi (by omega)
    · rename_i hdash
      split at h
      · cases h
      rename_i n hn
      cases h
      exact .number hdash hn
  · intro h
    have hnone : atoi ['*'] = none := by decide
    cases h with
    | star => simp [parseRange]
    | number hdash hn =>
      have hstar : base ≠ ['*'] := by
        rintro rfl
        cases hnone.symm.trans hn
      simp only [parseRange, if_neg hstar, if_neg hdash, hn]
    | @range s t _ _ hdash hlo hhi hle =>
      obtain ⟨hs, ht⟩ := split_append hdash t
      have hstar : s ++ '-' :: t ≠ ['*'] := by
        intro heq
        have hmem : '-' ∈ ['*'] := heq ▸ by simp
        exact absurd hmem (by decide)
      have hmem : '-' ∈ s ++ '-' :: t := by simp
      simp only [parseRange, if_neg hstar, if_pos hmem, hs, ht, hlo, hhi]
      rw [if_neg (by omega)]

theorem splitStep_ok : splitStep item = .ok (base, step) ↔ ('/' ∉ item ∧ base = item ∧ step = 1) ∨
      ∃ t, '/' ∉ base ∧ item = base ++ '/' :: t ∧ atoi t = some step ∧ 0 < step := by
  constructor
  · intro h
    simp only [splitStep] at h
    split at h
    · rename_i hslash
      obtain ⟨hs, hsplit⟩ := split_at hslash
      split at h
      · cases h
      rename_i n hn
      split at h
      · cases h
      cases h
      exact .inr ⟨_, hs, hsplit, hn, by omega⟩
    · rename_i hslash
      cases h
      exact .inl ⟨hslash, rfl, rfl⟩
  · rintro (⟨hslash, rfl, rfl⟩ | ⟨t, hslash, rfl, hn, hpos⟩)
    · simp only [splitStep, if_neg hslash]
    · obtain ⟨hs, ht⟩ := split_append hslash t
      have hmem : '/' ∈ base ++ '/' :: t := by simp
      simp only [splitStep, if_pos hmem, hs, ht, hn]
      rw [if_neg (by omega)]

/-- **The two functions read the grammar.** -/
theorem item_iff : Item min max item lo hi step ↔
      ∃ base, splitStep item = .ok (base, step) ∧ parseRange base min max = .ok (lo, hi) := by
  simp only [splitStep_ok, parseRange_ok]
  constructor
  · intro h
    cases h with
    | plain hslash hbase => exact ⟨_, .inl ⟨hslash, rfl, rfl⟩, hbase⟩
    | stepped hslash hbase hstep hpos => exact ⟨_, .inr ⟨_, hslash, rfl, hstep, hpos⟩, hbase⟩
  · rintro ⟨base, ⟨hslash, rfl, rfl⟩ | ⟨t, hslash, rfl, hstep, hpos⟩, hbase⟩
    · exact .plain hslash hbase
    · exact .stepped hslash hbase hstep hpos

theorem Item.bounds (h : Item min max item lo hi step) (hmin : min ≤ max) :
    lo ≤ hi ∧ 1 ≤ step ∧ step < 2 ^ 63 := by
  have hatoi : ∀ {s : List Char} {n : ℤ}, atoi s = some n → n < 2 ^ 63 := by
    intro s n hn
    simp only [atoi, Option.ite_none_right_eq_some, Option.some.injEq] at hn
    obtain ⟨⟨-, -, -, hlt⟩, rfl⟩ := hn
    exact hlt
  have hbase : ∀ {s : List Char}, Base min max s lo hi → lo ≤ hi := by
    intro s hs
    cases hs with
    | star => exact hmin
    | number => exact le_refl lo
    | range _ _ _ hle => exact hle
  cases h with
  | plain _ hb => exact ⟨hbase hb, by decide, by decide⟩
  | stepped _ hb hstep hpos => exact ⟨hbase hb, hpos, hatoi hstep⟩

/-! ## The loop -/

/-- The body of the loop: the next counter and what has been marked, or how it ends. -/
def markBody (hi step : ℤ) (s : ℤ × List ℕ) : (ℤ × List ℕ) ⊕ Except ParseError (List ℕ) :=
  if hi < s.1 then .inr (.ok s.2.reverse)
  else if s.1 < 0 then .inr (.error .panic)
  else .inl ((s.1 + step).bmod (2 ^ 64), s.1.toNat :: s.2)

theorem bmod_of_lt (h : 0 ≤ x) (h' : x < 2 ^ 63) : x.bmod (2 ^ 64) = x := by
  rw [Int.bmod]
  split <;> omega

theorem bmod_of_ge (h : 2 ^ 63 ≤ x) (h' : x < 2 ^ 64) : x.bmod (2 ^ 64) < 0 := by
  rw [Int.bmod]
  split <;> omega

/-- What `n` rounds do, if they are enough. -/
structure MarkLoop (hi step v : ℤ) (n : ℕ) : Prop where
  fits : v ≤ hi → Fits v hi step → ∃ l, mark hi step n v = .ok l ∧
    ∀ u : ℕ, u ∈ l ↔ Item.Value v hi step u
  overflow : v ≤ hi → ¬Fits v hi step → mark hi step n v = .error .panic
  returns : ∀ acc, Loop.Returns (markBody hi step) (v, acc)
    ((mark hi step n v).map fun l => acc.reverse ++ l)

theorem markLoop_of_lt (h : hi < v) (n : ℕ) : MarkLoop hi step v n := by
  have hmark : mark hi step n v = .ok [] := by
    cases n with
    | zero => rfl
    | succ n => simp only [mark, if_pos h]
  refine ⟨fun hle => by omega, fun hle => by omega, fun acc => ⟨1, ?_⟩⟩
  rw [hmark, Loop.run_of_inr (by simp only [markBody, if_pos h]; rfl)]
  simp [Except.map]

theorem Item.value_iff {u : ℤ} (hv : v ≤ hi) :
    Item.Value v hi step u ↔ u = v ∨ Item.Value (v + step) hi step u := by
  constructor
  · rintro ⟨k, rfl, hle⟩
    cases k with
    | zero => exact .inl (by simp)
    | succ k => exact .inr ⟨k, by rw [Nat.cast_succ, add_mul]; omega, hle⟩
  · rintro (rfl | ⟨k, rfl, hle⟩)
    · exact ⟨0, by simp, hv⟩
    · exact ⟨k + 1, by rw [Nat.cast_succ, add_mul]; omega, hle⟩

/-- **The loop ends** within as many rounds as there are values, and one more. -/
theorem markLoop (hhi : hi < 64) (hstep : 1 ≤ step) (hstep' : step < 2 ^ 63) (n : ℕ) :
    ∀ v, 0 ≤ v → hi + 1 < v + n → MarkLoop hi step v n := by
  induction n with
  | zero => intro v _ hn; exact markLoop_of_lt (by omega) 0
  | succ n ih =>
    intro v hv hn
    by_cases hlt : hi < v
    · exact markLoop_of_lt hlt _
    have hmark : mark hi step (n + 1) v =
        (mark hi step n ((v + step).bmod (2 ^ 64))).map (v.toNat :: ·) := by
      simp only [mark, if_neg hlt, if_neg (show ¬v < 0 by omega)]
    have hbody : ∀ acc, markBody hi step (v, acc) =
        .inl ((v + step).bmod (2 ^ 64), v.toNat :: acc) := fun acc => by
      simp only [markBody, if_neg hlt, if_neg (show ¬v < 0 by omega)]
    by_cases hover : 2 ^ 63 ≤ v + step
    · -- The sum wraps, and the next round has a negative index.
      have hneg := bmod_of_ge hover (by omega)
      have hpanic : mark hi step n ((v + step).bmod (2 ^ 64)) = .error .panic := by
        obtain ⟨n, rfl⟩ : ∃ m, n = m + 1 := ⟨n - 1, by omega⟩
        simp only [mark, if_neg (show ¬hi < (v + step).bmod (2 ^ 64) by omega), if_pos hneg]
      have hlast : (hi - v) % step = hi - v := emod_eq_of_lt (by omega) (by omega)
      have hend : ∀ acc, markBody hi step ((v + step).bmod (2 ^ 64), acc) =
          .inr (.error .panic) := fun acc => by
        simp only [markBody, if_neg (show ¬hi < (v + step).bmod (2 ^ 64) by omega), if_pos hneg]
      refine ⟨fun _ hfits => ?_, fun _ _ => by rw [hmark, hpanic]; rfl, fun acc => ⟨2, ?_⟩⟩
      · rw [Fits, hlast] at hfits
        omega
      · rw [Loop.run_of_inl (hbody acc), Loop.run_of_inr (hend _), hmark, hpanic]
        rfl
    · rw [bmod_of_lt (by omega) (by omega)] at hmark hbody
      have hnext := ih (v + step) (by omega) (by omega)
      have hmod : (hi - (v + step)) % step = (hi - v) % step := by
        rw [← sub_sub, sub_emod_right]
      have hreturns : ∀ acc, Loop.Returns (markBody hi step) (v, acc)
          ((mark hi step (n + 1) v).map fun l => acc.reverse ++ l) := by
        intro acc
        obtain ⟨m, hm⟩ := hnext.returns (v.toNat :: acc)
        refine ⟨m + 1, ?_⟩
        rw [Loop.run_of_inl (hbody acc), hm, hmark]
        cases mark hi step n (v + step) <;> simp [Except.map]
      by_cases hmore : v + step ≤ hi
      · refine ⟨fun _ hfits => ?_, fun _ hfits => ?_, hreturns⟩
        · obtain ⟨l, hl, hvalues⟩ := hnext.fits hmore (by rwa [Fits, hmod])
          refine ⟨v.toNat :: l, by rw [hmark, hl]; rfl, fun u => ?_⟩
          rw [Item.value_iff (by omega), mem_cons, hvalues]
          exact or_congr_left (by omega)
        · rw [hmark, hnext.overflow hmore (by rwa [Fits, hmod])]
          rfl
      · have hnone : mark hi step n (v + step) = .ok [] := by
          cases n with
          | zero => rfl
          | succ n => simp only [mark, if_pos (show hi < v + step by omega)]
        have hlast : (hi - v) % step = hi - v := emod_eq_of_lt (by omega) (by omega)
        refine ⟨fun _ _ => ⟨[v.toNat], by rw [hmark, hnone]; rfl, fun u => ?_⟩, ?_, hreturns⟩
        · rw [Item.value_iff (by omega), mem_singleton]
          constructor
          · intro hu
            exact .inl (by omega)
          rintro (hu | ⟨k, hk, hle⟩)
          · omega
          · have := mul_nonneg (natCast_nonneg k) (show 0 ≤ step by omega)
            omega
        · intro _ hfits
          rw [Fits, hlast] at hfits
          omega

/-! ## Items and fields -/

/-- The item is in range, and its step fits. -/
def Good (min max : ℤ) (item : List Char) : Prop :=
  ∃ lo hi step, InRange min max item lo hi step ∧ Fits lo hi step

/-- The first item that is not good is one in range. -/
def Crashes : List (ℤ × ℤ × List Char) → Prop
  | [] => False
  | (min, max, item) :: rest =>
    ∃ lo hi step, InRange min max item lo hi step ∧ (Fits lo hi step → Crashes rest)

/-- The items of a field, with its bounds. -/
def itemsOf (min max : ℤ) (expr : String) : List (ℤ × ℤ × List Char) :=
  (expr.toList.splitOn ',').map fun item => (min, max, item)

/-- A field has the values of its items. -/
structure DenotesField (min max : ℤ) (expr : String) (fs : FieldSpec) : Prop where
  items : ∀ item ∈ expr.toList.splitOn ',', ∃ lo hi step, InRange min max item lo hi step
  set : ∀ v : ℕ, v ∈ fs.set ↔ ∃ item ∈ expr.toList.splitOn ',', ∃ lo hi step,
    Item min max item lo hi step ∧ Item.Value lo hi step v
  nonempty : fs.set ≠ []
  bounds : ∀ v ∈ fs.set, min ≤ v ∧ (v : ℤ) ≤ max
  wildcard : fs.wildcard = true → expr = "*"

theorem Item.unique {lo' hi' step' : ℤ} (h : Item min max item lo hi step)
    (h' : Item min max item lo' hi' step') : lo' = lo ∧ hi' = hi ∧ step' = step := by
  obtain ⟨base, hsplit, hrange⟩ := item_iff.1 h
  obtain ⟨base', hsplit', hrange'⟩ := item_iff.1 h'
  cases hsplit.symm.trans hsplit'
  cases hrange.symm.trans hrange'
  exact ⟨rfl, rfl, rfl⟩

section
variable {min max : ℤ} (hb : 0 ≤ min ∧ min ≤ max ∧ max < 63) {name expr : String} {item : List Char}
  {lo hi step : ℤ}

theorem parseItem_of_inRange (h : InRange min max item lo hi step) :
    parseItem name expr min max item = mark hi step 64 lo := by
  obtain ⟨base, hsplit, hrange⟩ := item_iff.1 h.item
  have hempty : item ≠ [] := by
    rintro rfl
    cases hsplit
    cases hrange
  have hbounds : ¬(lo < min ∨ max < hi) := by
    have := h.low
    have := h.high
    omega
  simp only [parseItem, if_neg hempty, hsplit, hrange, if_neg hbounds]

theorem parseItem_rejects (h : ¬∃ lo hi step, InRange min max item lo hi step) :
    ∃ text, parseItem name expr min max item = .error (.invalid text) := by
  simp only [parseItem]
  split
  · exact ⟨_, rfl⟩
  split
  · exact ⟨_, rfl⟩
  · rename_i base step hsplit
    split
    · exact ⟨_, rfl⟩
    rename_i lo hi hrange
    split
    · exact ⟨_, rfl⟩
    rename_i hbounds
    exact absurd ⟨lo, hi, step, item_iff.2 ⟨base, hsplit, hrange⟩, by omega, by omega⟩ h

include hb

theorem InRange.markLoop (h : InRange min max item lo hi step) :
    lo ≤ hi ∧ MarkLoop hi step lo 64 := by
  obtain ⟨hle, hpos, hlt⟩ := h.item.bounds hb.2.1
  have hlow := h.low
  have hhigh := h.high
  exact ⟨hle, Cron.markLoop (by omega) hpos hlt 64 lo (by omega) (by omega)⟩

theorem parseItem_good (name expr : String) (h : Good min max item) :
    ∃ l, parseItem name expr min max item = .ok l ∧
      ∀ u : ℕ, u ∈ l ↔ ∃ lo hi step, Item min max item lo hi step ∧ Item.Value lo hi step u := by
  obtain ⟨lo, hi, step, hrange, hfits⟩ := h
  obtain ⟨hle, hmark⟩ := hrange.markLoop hb
  obtain ⟨l, hl, hvalues⟩ := hmark.fits hle hfits
  refine ⟨l, by rw [parseItem_of_inRange hrange, hl], fun u => ?_⟩
  rw [hvalues]
  constructor
  · intro hu
    exact ⟨lo, hi, step, hrange.item, hu⟩
  rintro ⟨lo', hi', step', hitem, hu⟩
  obtain ⟨rfl, rfl, rfl⟩ := hrange.item.unique hitem
  exact hu

/-- **One item**: it is good, or it crashes, or it is rejected. -/
theorem parseItem_cases (name expr : String) (item : List Char) : Good min max item ∨
      (¬Good min max item ∧ (∃ lo hi step, InRange min max item lo hi step) ∧
        parseItem name expr min max item = .error .panic) ∨
      (¬∃ lo hi step, InRange min max item lo hi step) ∧
        ∃ text, parseItem name expr min max item = .error (.invalid text) := by
  by_cases hrange : ∃ lo hi step, InRange min max item lo hi step
  · by_cases hgood : Good min max item
    · exact .inl hgood
    · obtain ⟨lo, hi, step, h⟩ := hrange
      obtain ⟨hle, hmark⟩ := h.markLoop hb
      refine .inr (.inl ⟨hgood, ⟨lo, hi, step, h⟩, ?_⟩)
      rw [parseItem_of_inRange h]
      exact hmark.overflow hle fun hfits => hgood ⟨lo, hi, step, h, hfits⟩
  · exact .inr (.inr ⟨hrange, parseItem_rejects hrange⟩)

theorem mapM_parseItem (name expr : String) (items : List (List Char)) :
    ((∀ item ∈ items, Good min max item) →
      ∃ sets, items.mapM (parseItem name expr min max) = .ok sets ∧
        ∀ u : ℕ, u ∈ sets.flatten ↔ ∃ item ∈ items, ∃ lo hi step,
          Item min max item lo hi step ∧ Item.Value lo hi step u) ∧
    (∀ sets, items.mapM (parseItem name expr min max) = .ok sets →
      ∀ item ∈ items, Good min max item) ∧
    (items.mapM (parseItem name expr min max) = .error .panic ↔
      Crashes (items.map fun item => (min, max, item))) := by
  induction items with
  | nil => simp [Crashes, pure, Except.pure]
  | cons item items ih =>
    obtain ⟨ihok, ihgood, ihcrash⟩ := ih
    rw [mapM_cons]
    rcases parseItem_cases hb name expr item with
      hgood | ⟨hbad, hrange, hpanic⟩ | ⟨hno, text, herr⟩
    · obtain ⟨l, hl, hvalues⟩ := parseItem_good hb name expr hgood
      obtain ⟨lo, hi, step, hrange, hfits⟩ := hgood
      rw [hl]
      refine ⟨fun hall => ?_, fun sets hsets => ?_, ?_⟩
      · obtain ⟨sets, hsets, hmem⟩ := ihok fun x hx => hall x (mem_cons_of_mem _ hx)
        refine ⟨l :: sets, by rw [hsets]; rfl, fun u => ?_⟩
        rw [flatten_cons, mem_append, hvalues, hmem, exists_mem_cons_iff]
      · cases hrest : items.mapM (parseItem name expr min max) with
        | error e => rw [hrest] at hsets; cases hsets
        | ok rest =>
          exact forall_mem_cons.2 ⟨⟨lo, hi, step, hrange, hfits⟩, ihgood rest hrest⟩
      · have hcrash : Crashes ((item :: items).map fun item => (min, max, item)) ↔
            Crashes (items.map fun item => (min, max, item)) := by
          rw [map_cons, Crashes]
          constructor
          · rintro ⟨lo', hi', step', hrange', hrest⟩
            obtain ⟨rfl, rfl, rfl⟩ := hrange.item.unique hrange'.item
            exact hrest hfits
          · intro hrest
            exact ⟨lo, hi, step, hrange, fun _ => hrest⟩
        rw [hcrash, ← ihcrash]
        cases items.mapM (parseItem name expr min max) <;>
          simp [bind, Except.bind, pure, Except.pure]
    · rw [hpanic]
      refine ⟨fun hall => absurd (hall item (mem_cons_self)) hbad, fun sets hsets => ?_, ?_⟩
      · cases hsets
      obtain ⟨lo, hi, step, h⟩ := hrange
      exact iff_of_true rfl ⟨lo, hi, step, h, fun hfits => absurd ⟨lo, hi, step, h, hfits⟩ hbad⟩
    · rw [herr]
      refine ⟨fun hall => ?_, fun sets hsets => ?_, iff_of_false (fun h => ?_) ?_⟩
      · obtain ⟨lo, hi, step, h, -⟩ := hall item (mem_cons_self)
        exact absurd ⟨lo, hi, step, h⟩ hno
      · cases hsets
      · cases h
      · rintro ⟨lo, hi, step, h, -⟩
        exact hno ⟨lo, hi, step, h⟩

theorem parseField_panic_iff :
    parseField name expr min max = .error .panic ↔ Crashes (itemsOf min max expr) := by
  rw [itemsOf, ← (mapM_parseItem hb name expr _).2.2, parseField]
  split
  · rename_i e he
    rw [he, Except.error.injEq, Except.error.injEq]
  rename_i sets hsets
  rw [hsets]
  exact iff_of_false (fun h => by cases h) fun h => by cases h

theorem parseField_ok_iff : (∃ fs, parseField name expr min max = .ok fs) ↔
      ∀ x ∈ itemsOf min max expr, Good x.1 x.2.1 x.2.2 := by
  obtain ⟨hok, hgood, -⟩ := mapM_parseItem hb name expr (expr.toList.splitOn ',')
  simp only [itemsOf, forall_mem_map]
  constructor
  · rintro ⟨fs, hfs⟩
    simp only [parseField] at hfs
    split at hfs
    · cases hfs
    rename_i sets hsets
    exact hgood sets hsets
  · intro hall
    obtain ⟨sets, hsets, -⟩ := hok hall
    exact ⟨_, by rw [parseField, hsets]⟩

/-- **A field that is accepted has the values of its items.** -/
theorem denotesField {fs : FieldSpec} (h : parseField name expr min max = .ok fs) :
    DenotesField min max expr fs := by
  obtain ⟨hok, hgood, -⟩ := mapM_parseItem hb name expr (expr.toList.splitOn ',')
  simp only [parseField] at h
  split at h
  · cases h
  rename_i sets hsets
  have hall := hgood sets hsets
  obtain ⟨sets', hsets', hmem⟩ := hok hall
  cases hsets.symm.trans hsets'
  cases h
  have hrange : ∀ item ∈ expr.toList.splitOn ',', ∃ lo hi step,
      InRange min max item lo hi step := fun item hitem => by
    obtain ⟨lo, hi, step, hrange, -⟩ := hall item hitem
    exact ⟨lo, hi, step, hrange⟩
  refine ⟨hrange, hmem, ?_, fun v hv => ?_, fun hw => by simpa using hw⟩
  · obtain ⟨item, hitem⟩ := exists_mem_of_ne_nil _ (splitOn_ne_nil ',' expr.toList)
    obtain ⟨lo, hi, step, h⟩ := hrange item hitem
    have hle := (h.markLoop hb).1
    have hlow := h.low
    exact ne_nil_of_mem ((hmem lo.toNat).2
      ⟨item, hitem, lo, hi, step, h.item, 0, by simp; omega, by omega⟩)
  · obtain ⟨item, hitem, lo, hi, step, h, k, hk, hle⟩ := (hmem v).1 hv
    obtain ⟨lo', hi', step', h'⟩ := hrange item hitem
    obtain ⟨rfl, rfl, rfl⟩ := h.unique h'.item
    have hpos := (h.bounds hb.2.1).2.1
    have := mul_nonneg (natCast_nonneg k) (show 0 ≤ step' by omega)
    have hlow := h'.low
    have hhigh := h'.high
    omega

end

/-! ## Expressions -/

/-- The bounds of the five fields. -/
def fieldBounds : List (ℤ × ℤ) := [(0, 59), (0, 23), (1, 31), (1, 12), (0, 6)]

/-- The items of an expression, in the order in which they are read. -/
def items (expr : String) : List (ℤ × ℤ × List Char) :=
  (fieldBounds.zip (fields expr)).flatMap fun p => itemsOf p.1.1 p.1.2 p.2

/-- Five fields of items in range. -/
def WellFormed (expr : String) : Prop :=
  (fields expr).length = 5 ∧
    ∀ x ∈ items expr, ∃ lo hi step, InRange x.1 x.2.1 x.2.2 lo hi step

/-- The five fields of a schedule have the values of their texts. -/
def Denotes (expr : String) (s : Schedule) : Prop :=
  ∃ f₀ f₁ f₂ f₃ f₄, fields expr = [f₀, f₁, f₂, f₃, f₄] ∧
    DenotesField 0 59 f₀ s.minute ∧ DenotesField 0 23 f₁ s.hour ∧ DenotesField 1 31 f₂ s.dom ∧
    DenotesField 1 12 f₃ s.month ∧ DenotesField 0 6 f₄ s.dow

/-- What is accepted has its meaning, and what has a meaning is accepted. -/
structure DenotesAll (expr : String) (loc : Zone) : Prop where
  sound : ∀ s, parse expr (some loc) = .ok s → Denotes expr s
  complete : WellFormed expr → ∃ s, parse expr (some loc) = .ok s

/-- `Parse` returns a schedule or an error, and its loops end. -/
structure NeverCrashes (expr : String) (loc : Zone) : Prop where
  returns : parse expr (some loc) ≠ .error .panic
  ends : ∀ x ∈ items expr, ∀ lo hi step, InRange x.1 x.2.1 x.2.2 lo hi step →
    Loop.Returns (markBody hi step) (lo, []) (mark hi step 64 lo) ∧
      ∀ l, mark hi step 64 lo = .ok l → ∀ v ∈ l, v < 64

variable {ε α β : Type} {x : Except ε α} {f : α → Except ε β}

theorem bind_eq_error {e : ε} :
    (x >>= f) = .error e ↔ x = .error e ∨ ∃ a, x = .ok a ∧ f a = .error e := by
  cases x <;> simp [bind, Except.bind]

theorem bind_eq_ok {b : β} : (x >>= f) = .ok b ↔ ∃ a, x = .ok a ∧ f a = .ok b := by
  cases x <;> simp [bind, Except.bind]

/-- A crash comes in the first part, or in the second after all the first part is good. -/
theorem crashes_append (xs ys : List (ℤ × ℤ × List Char)) : Crashes (xs ++ ys) ↔
      Crashes xs ∨ (∀ x ∈ xs, Good x.1 x.2.1 x.2.2) ∧ Crashes ys := by
  induction xs with
  | nil => simp [Crashes]
  | cons x xs ih =>
    obtain ⟨min, max, item⟩ := x
    rw [cons_append, Crashes, Crashes, forall_mem_cons, ih]
    constructor
    · rintro ⟨lo, hi, step, h, hrest⟩
      by_cases hfits : Fits lo hi step
      · rcases hrest hfits with hcrash | ⟨hall, hcrash⟩
        · exact .inl ⟨lo, hi, step, h, fun _ => hcrash⟩
        · exact .inr ⟨⟨⟨lo, hi, step, h, hfits⟩, hall⟩, hcrash⟩
      · exact .inl ⟨lo, hi, step, h, fun hfits' => absurd hfits' hfits⟩
    · rintro (⟨lo, hi, step, h, hrest⟩ | ⟨⟨⟨lo, hi, step, h, -⟩, hall⟩, hcrash⟩)
      · exact ⟨lo, hi, step, h, fun hfits => .inl (hrest hfits)⟩
      · exact ⟨lo, hi, step, h, fun _ => .inr ⟨hall, hcrash⟩⟩

theorem items_of_fields {expr f₀ f₁ f₂ f₃ f₄ : String} (h : fields expr = [f₀, f₁, f₂, f₃, f₄]) :
    items expr = itemsOf 0 59 f₀ ++ (itemsOf 0 23 f₁ ++ (itemsOf 1 31 f₂ ++
      (itemsOf 1 12 f₃ ++ itemsOf 0 6 f₄))) := by
  simp [items, h, fieldBounds]

section
variable {expr : String} {loc : Zone}

theorem parse_of_length (loc : Zone) (h : (fields expr).length ≠ 5) :
    ∃ text, parse expr (some loc) = .error (.invalid text) := by
  unfold parse
  split
  · exact ⟨_, rfl⟩
  · rename_i hfields
    simp [hfields] at h
  · exact ⟨_, rfl⟩

theorem exists_fields (h : (fields expr).length = 5) :
    ∃ f₀ f₁ f₂ f₃ f₄, fields expr = [f₀, f₁, f₂, f₃, f₄] := by
  match hfields : fields expr, h with
  | [f₀, f₁, f₂, f₃, f₄], _ => exact ⟨f₀, f₁, f₂, f₃, f₄, rfl⟩

/-- **Where `Parse` panics.** -/
theorem parse_panic_iff (loc : Zone) :
    parse expr (some loc) = .error .panic ↔ (fields expr).length = 5 ∧ Crashes (items expr) := by
  by_cases hlength : (fields expr).length = 5
  · obtain ⟨f₀, f₁, f₂, f₃, f₄, h⟩ := exists_fields hlength
    have hpure : ∀ s : Schedule, (pure s : Except ParseError Schedule) ≠ .error .panic := by
      intro s hs
      cases hs
    simp only [parse, h, bind_eq_error, hpure, exists_and_right, and_false, exists_false, or_false]
    simp (disch := decide) only [parseField_panic_iff, parseField_ok_iff]
    simp only [items_of_fields h, crashes_append, length_cons, length_nil, true_and]
  · obtain ⟨text, htext⟩ := parse_of_length loc hlength
    rw [htext]
    exact iff_of_false (fun h => by cases h) fun h => hlength h.1

theorem parse_ok_iff : (∃ s, parse expr (some loc) = .ok s) ↔
      (fields expr).length = 5 ∧ ∀ x ∈ items expr, Good x.1 x.2.1 x.2.2 := by
  by_cases hlength : (fields expr).length = 5
  · obtain ⟨f₀, f₁, f₂, f₃, f₄, h⟩ := exists_fields hlength
    have hok : (∃ s, parse expr (some loc) = .ok s) ↔
        (∃ a, parseField "minute" f₀ 0 59 = .ok a) ∧ (∃ a, parseField "hour" f₁ 0 23 = .ok a) ∧
          (∃ a, parseField "day-of-month" f₂ 1 31 = .ok a) ∧
          (∃ a, parseField "month" f₃ 1 12 = .ok a) ∧
          ∃ a, parseField "day-of-week" f₄ 0 6 = .ok a := by
      simp only [parse, h, bind_eq_ok]
      constructor
      · rintro ⟨s, a₀, h₀, a₁, h₁, a₂, h₂, a₃, h₃, a₄, h₄, -⟩
        exact ⟨⟨a₀, h₀⟩, ⟨a₁, h₁⟩, ⟨a₂, h₂⟩, ⟨a₃, h₃⟩, ⟨a₄, h₄⟩⟩
      · rintro ⟨⟨a₀, h₀⟩, ⟨a₁, h₁⟩, ⟨a₂, h₂⟩, ⟨a₃, h₃⟩, ⟨a₄, h₄⟩⟩
        exact ⟨_, a₀, h₀, a₁, h₁, a₂, h₂, a₃, h₃, a₄, h₄, rfl⟩
    rw [hok]
    simp (disch := decide) only [parseField_ok_iff]
    simp only [hlength, items_of_fields h, forall_mem_append, true_and]
  · obtain ⟨text, htext⟩ := parse_of_length loc hlength
    refine iff_of_false ?_ fun h => hlength h.1
    rintro ⟨s, hs⟩
    cases htext.symm.trans hs

theorem denotes_of_parse {s : Schedule} (hs : parse expr (some loc) = .ok s) : Denotes expr s := by
  have hlength := (parse_ok_iff.1 ⟨s, hs⟩).1
  obtain ⟨f₀, f₁, f₂, f₃, f₄, h⟩ := exists_fields hlength
  simp only [parse, h, bind_eq_ok] at hs
  obtain ⟨a₀, h₀, a₁, h₁, a₂, h₂, a₃, h₃, a₄, h₄, hpure⟩ := hs
  cases hpure
  exact ⟨f₀, f₁, f₂, f₃, f₄, h, denotesField (by decide) h₀, denotesField (by decide) h₁,
    denotesField (by decide) h₂, denotesField (by decide) h₃, denotesField (by decide) h₄⟩

theorem bounds_of_mem_items {x : ℤ × ℤ × List Char} (h : x ∈ items expr) :
    0 ≤ x.1 ∧ x.1 ≤ x.2.1 ∧ x.2.1 < 63 := by
  have key : ∀ b ∈ fieldBounds, 0 ≤ b.1 ∧ b.1 ≤ b.2 ∧ b.2 < 63 := by decide
  obtain ⟨p, hp, hx⟩ := mem_flatMap.1 h
  obtain ⟨item, -, rfl⟩ := mem_map.1 hx
  exact key p.1 (of_mem_zip hp).1

/-- **`Parse` gives every expression its meaning**, but for those with a step that does not fit. -/
theorem denotesAll_iff (expr : String) (loc : Zone) :
    DenotesAll expr loc ↔ (WellFormed expr → ∀ x ∈ items expr, ∀ lo hi step,
      InRange x.1 x.2.1 x.2.2 lo hi step → Fits lo hi step) := by
  constructor
  · intro h hwell x hx lo hi step hrange
    obtain ⟨lo', hi', step', hrange', hfits⟩ := (parse_ok_iff.1 (h.complete hwell)).2 x hx
    obtain ⟨rfl, rfl, rfl⟩ := hrange.item.unique hrange'.item
    exact hfits
  · intro h
    refine ⟨fun s hs => denotes_of_parse hs, fun hwell => parse_ok_iff.2 ⟨hwell.1, ?_⟩⟩
    intro x hx
    obtain ⟨lo, hi, step, hrange⟩ := hwell.2 x hx
    exact ⟨lo, hi, step, hrange, h hwell x hx lo hi step hrange⟩

/-- **`Parse` never crashes**, but for the expressions whose first bad item is one with a step
that does not fit. -/
theorem neverCrashes_iff (expr : String) (loc : Zone) :
    NeverCrashes expr loc ↔ ¬((fields expr).length = 5 ∧ Crashes (items expr)) := by
  rw [← parse_panic_iff loc]
  constructor
  · intro h
    exact h.returns
  intro h
  refine ⟨h, fun x hx lo hi step hrange => ?_⟩
  obtain ⟨hle, hmark⟩ := hrange.markLoop (bounds_of_mem_items hx)
  constructor
  · have hreturns := hmark.returns []
    cases hm : mark hi step 64 lo <;> simpa [hm, Except.map] using hreturns
  intro l hl v hv
  have hfits : Fits lo hi step := by
    by_contra hfits
    cases hl.symm.trans (hmark.overflow hle hfits)
  obtain ⟨l', hl', hvalues⟩ := hmark.fits hle hfits
  cases hl.symm.trans hl'
  obtain ⟨k, -, hv'⟩ := (hvalues v).1 hv
  have hhigh := hrange.high
  have := bounds_of_mem_items hx
  omega

end

/-- A step of the largest integer. -/
def largestStep : String := "1/9223372036854775807 * * * *"

theorem parse_largestStep : parse largestStep (some fun _ => 0) = .error .panic := by
  have hfields : fields largestStep = ["1/9223372036854775807", "*", "*", "*", "*"] := by
    decide +kernel
  have hminute : parseField "minute" "1/9223372036854775807" 0 59 = .error .panic := by
    decide +kernel
  simp only [parse, hfields, hminute]
  rfl

theorem wellFormed_largestStep : WellFormed largestStep := by
  have hitems : items largestStep = [(0, 59, "1/9223372036854775807".toList), (0, 23, ['*']),
      (1, 31, ['*']), (1, 12, ['*']), (0, 6, ['*'])] := by
    decide +kernel
  have hstar : ∀ min max : ℤ, ∃ lo hi step, InRange min max ['*'] lo hi step := fun min max =>
    ⟨min, max, 1, .plain (by decide) .star, le_refl min, le_refl max⟩
  refine ⟨by decide +kernel, ?_⟩
  rw [hitems]
  simp only [forall_mem_cons, hstar, not_mem_nil, IsEmpty.forall_iff, implies_true, and_true]
  exact ⟨1, 1, 9223372036854775807, item_iff.2 ⟨['1'], by decide +kernel, by decide +kernel⟩,
    by decide, by decide⟩

/-- **A step of the largest integer crashes**: it is accepted, and the second round of the loop has
the index -9223372036854775808. -/
theorem not_neverCrashes_largestStep : ¬NeverCrashes largestStep fun _ => 0 := by
  intro h
  exact h.returns parse_largestStep

/-- An expression in range that is not accepted. -/
theorem not_denotesAll_largestStep : ¬DenotesAll largestStep fun _ => 0 := by
  intro h
  obtain ⟨s, hs⟩ := h.complete wellFormed_largestStep
  cases parse_largestStep.symm.trans hs

end AnimeFeedFlux.Cron
