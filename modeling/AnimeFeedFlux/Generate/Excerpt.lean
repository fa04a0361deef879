import AnimeFeedFlux.Generate.Patterns
import Mathlib.Data.List.DropRight
import Mathlib.Order.Bounds.Defs

/-!
# Excerpts

`ExcerptOf` cuts a plain text to a number of runes without cutting a word: it walks back from the
cap to a space, and forward from the cap when the first word alone is longer.  A text that has been
split into words and joined again has a space exactly where a word ends, so both walks stop at the
end of a word.
-/

namespace AnimeFeedFlux.Contract

open GoStrings List

/-! ## `ExcerptOf` -/

/-- `strings.Join` with a blank in between. -/
def unwords (ws : List (List Char)) : List Char := [' '].intercalate ws

/-- Back from a position to a space, or to the beginning. -/
def walkBack (runes : List Char) : ℕ → ℕ
  | 0 => 0
  | i + 1 => if runes[i + 1]?.any isSpace then i + 1 else walkBack runes i

/-- Forward over what is left, to a space or to the end. -/
def walkForward : List Char → ℕ → ℕ
  | [], i => i
  | c :: rest, i => if isSpace c then i else walkForward rest (i + 1)

def excerptOf (m : Matchers) (s : String) (max : ℤ) : String :=
  let runes := unwords (fields (plainText m s))
  if max ≤ 0 then ""
  else if runes.length ≤ max then String.ofList runes
  else
    let stop := walkBack runes max.toNat
    let stop := if stop = 0 then walkForward (runes.drop max.toNat) max.toNat else stop
    -- `strings.TrimRightFunc`
    let out := (runes.take stop).rdropWhile isSpace
    String.ofList (if stop < runes.length then out ++ ['…'] else out)

/-- An excerpt of the words: all of them if they have at most `max` runes, else as many as have,
or the first one if that has more, with an ellipsis for those that are left. -/
def IsExcerpt (ws : List (List Char)) (max : ℤ) (out : List Char) : Prop :=
  if (unwords ws).length ≤ max then out = unwords ws
  else ∃ k, 0 < k ∧ k ≤ ws.length ∧
    out = unwords (ws.take k) ++ (if k < ws.length then ['…'] else []) ∧
    (IsGreatest {j | j ≤ ws.length ∧ ((unwords (ws.take j)).length : ℤ) ≤ max} k ∨
      k = 1 ∧ max < (unwords (ws.take 1)).length)

/-! ## Words and spaces -/

/-- Words are not empty and have no spaces. -/
def Words (ws : List (List Char)) : Prop := ∀ w ∈ ws, w ≠ [] ∧ ∀ c ∈ w, isSpace c = false

theorem not_of_mem_splitOnP {p : Char → Bool} {l w : List Char} (hw : w ∈ l.splitOnP p) :
    ∀ c ∈ w, p c = false := by
  induction l generalizing w with
  | nil => simp_all
  | cons x l ih =>
    obtain ⟨v, vs, hsplit⟩ := exists_cons_of_ne_nil (splitOnP_ne_nil p l)
    rw [hsplit] at ih
    rw [splitOnP_cons_eq_if_modifyHead, hsplit] at hw
    split at hw
    · rcases mem_cons.1 hw with rfl | hw
      · simp
      · exact ih hw
    · rename_i hx
      rw [modifyHead_cons] at hw
      rcases mem_cons.1 hw with rfl | hw
      · simpa [hx] using ih (mem_cons_self ..)
      · exact ih (mem_cons_of_mem v hw)

theorem words_fields (s : String) : Words (fields s) := by
  intro w hw
  obtain ⟨hmem, hne⟩ := mem_filter.1 hw
  exact ⟨by simpa using hne, not_of_mem_splitOnP hmem⟩

@[simp] theorem unwords_singleton (w : List Char) : unwords [w] = w := by
  simp [unwords]

theorem unwords_cons_cons (w v : List Char) (ws : List (List Char)) :
    unwords (w :: v :: ws) = w ++ ' ' :: unwords (v :: ws) := by
  simp [unwords]

theorem unwords_append {xs ys : List (List Char)} (hx : xs ≠ []) (hy : ys ≠ []) :
    unwords (xs ++ ys) = unwords xs ++ ' ' :: unwords ys := by
  obtain ⟨y, ys, rfl⟩ := exists_cons_of_ne_nil hy
  induction xs with
  | nil => exact absurd rfl hx
  | cons w xs ih =>
    cases xs with
    | nil => simp [unwords_cons_cons]
    | cons v xs =>
      have hrest := ih (by simp)
      simp_all [unwords_cons_cons]

variable {ws : List (List Char)} {j k : ℕ}

theorem Words.take (h : Words ws) (k : ℕ) : Words (ws.take k) :=
  fun w hw => h w (mem_of_mem_take hw)

theorem unwords_take_drop (hk : 0 < k) (hlt : k < ws.length) :
    unwords ws = unwords (ws.take k) ++ ' ' :: unwords (ws.drop k) := by
  rw [← unwords_append, take_append_drop]
  · exact ne_nil_of_length_pos (by rw [length_take]; omega)
  · exact ne_nil_of_length_pos (by rw [length_drop]; omega)

theorem take_unwords (hk : 0 < k) (ws : List (List Char)) :
    (unwords ws).take (unwords (ws.take k)).length = unwords (ws.take k) := by
  rcases Nat.lt_or_ge k ws.length with hlt | hge
  · nth_rewrite 1 [unwords_take_drop hk hlt]
    exact take_left
  · rw [take_of_length_le hge, List.take_length]

theorem length_unwords_lt (hk : 0 < k) (hlt : k < ws.length) :
    (unwords (ws.take k)).length < (unwords ws).length := by
  rw [unwords_take_drop hk hlt]
  simp

/-- A word ends in a space. -/
theorem space_of_word (hk : 0 < k) (hlt : k < ws.length) :
    (unwords ws)[(unwords (ws.take k)).length]?.any isSpace := by
  nth_rewrite 1 [unwords_take_drop hk hlt]
  simp
  decide

/-- **A space ends a word.** -/
theorem word_of_space (h : Words ws) {i : ℕ} (hi : (unwords ws)[i]?.any isSpace) :
    ∃ k, 0 < k ∧ k < ws.length ∧ (unwords (ws.take k)).length = i := by
  induction ws generalizing i with
  | nil => simp [unwords] at hi
  | cons w ws ih =>
    have hw : ∀ j : ℕ, w[j]?.any isSpace = false := by
      intro j
      rw [Option.any_eq_false]
      exact fun c hc => by simp [(h w (mem_cons_self ..)).2 c (mem_of_getElem? hc)]
    cases ws with
    | nil => simp [hw] at hi
    | cons v ws =>
      rw [unwords_cons_cons] at hi
      rcases Nat.lt_trichotomy i w.length with hlt | rfl | hgt
      · rw [getElem?_append_left hlt, hw] at hi
        cases hi
      · exact ⟨1, by simp, by simp, by simp⟩
      · obtain ⟨j, rfl⟩ := Nat.exists_eq_add_of_lt hgt
        rw [getElem?_append_right (by omega), Nat.add_assoc, Nat.add_sub_cancel_left,
          getElem?_cons_succ] at hi
        obtain ⟨k, hk, hlt, rfl⟩ := ih (fun v hv => h v (mem_cons_of_mem w hv)) hi
        refine ⟨k + 1, by omega, by simpa using hlt, ?_⟩
        obtain ⟨k, rfl⟩ := Nat.exists_eq_succ_of_ne_zero hk.ne'
        simp [unwords_cons_cons]
        omega

/-- The text ends in a word. -/
theorem rdropWhile_unwords (h : Words ws) : (unwords ws).rdropWhile isSpace = unwords ws := by
  rcases eq_nil_or_concat ws with rfl | ⟨vs, w, rfl⟩
  · rfl
  obtain ⟨hne, hw⟩ := h w (by simp)
  have hlast : ¬isSpace (w.getLast hne) = true := by simp [hw _ (getLast_mem hne)]
  obtain ⟨a, ha⟩ : ∃ a, unwords (vs ++ [w]) = a ++ w := by
    by_cases hvs : vs = []
    · exact ⟨[], by simp [hvs]⟩
    · exact ⟨unwords vs ++ [' '], by simp [unwords_append hvs]⟩
  rw [concat_eq_append, ha, rdropWhile_eq_self_iff]
  intro _
  rwa [getLast_append_of_ne_nil _ hne]

/-! ## The walks -/

theorem walkBack_spec (runes : List Char) (i : ℕ) : walkBack runes i ≤ i ∧
    (walkBack runes i ≠ 0 → runes[walkBack runes i]?.any isSpace) ∧
    ∀ j : ℕ, walkBack runes i < j → j ≤ i → runes[j]?.any isSpace = false := by
  induction i with
  | zero => simp [walkBack]; omega
  | succ i ih =>
    rw [walkBack]
    split
    · rename_i hspace
      exact ⟨Nat.le_refl _, fun _ => hspace, fun j hlt hle => absurd hlt (by omega)⟩
    · rename_i hspace
      refine ⟨ih.1.trans (Nat.le_succ i), ih.2.1, fun j hlt hle => ?_⟩
      rcases Nat.le_succ_iff.1 hle with hle | rfl
      · exact ih.2.2 j hlt hle
      · simpa using hspace

theorem walkForward_append {v : List Char} (hv : ∀ c ∈ v, isSpace c = false) (rest : List Char)
    (i : ℕ) : walkForward (v ++ rest) i = walkForward rest (i + v.length) := by
  induction v generalizing i with
  | nil => rfl
  | cons c v ih =>
    rw [forall_mem_cons] at hv
    rw [cons_append, walkForward, hv.1, if_neg Bool.false_ne_true, ih hv.2, length_cons,
      Nat.add_right_comm, Nat.add_assoc]

/-! ## The cut -/

/-- With no space up to the cap, the first word is longer, and the walk forward ends with it. -/
theorem walkForward_first (h : Words ws) {max : ℕ} (hmax : max < (unwords ws).length)
    (hnone : ∀ j : ℕ, 0 < j → j ≤ max → (unwords ws)[j]?.any isSpace = false) :
    max < (unwords (ws.take 1)).length ∧
      walkForward ((unwords ws).drop max) max = (unwords (ws.take 1)).length := by
  obtain ⟨w, vs, rfl⟩ := exists_cons_of_ne_nil (l := ws) (by rintro rfl; simp [unwords] at hmax)
  obtain ⟨hne, hw⟩ := h w (mem_cons_self ..)
  rw [take_succ_cons, take_zero, unwords_singleton]
  obtain ⟨rest, hrest, hends, hlt⟩ : ∃ rest, unwords (w :: vs) = w ++ rest ∧
      (∀ i, walkForward rest i = i) ∧ max < w.length := by
    cases vs with
    | nil => exact ⟨[], by simp, fun i => rfl, by simpa using hmax⟩
    | cons v vs =>
      refine ⟨_, unwords_cons_cons w v vs, fun i => rfl, ?_⟩
      by_contra hge
      have hspace := hnone w.length (length_pos_of_ne_nil hne) (by omega)
      rw [unwords_cons_cons] at hspace
      simp at hspace
      revert hspace
      decide
  refine ⟨hlt, ?_⟩
  rw [hrest, drop_append_of_le_length hlt.le,
    walkForward_append fun c hc => hw c (mem_of_mem_drop hc), hends, length_drop]
  omega

/-- **The text is cut** after the words that fit, or after the first one. -/
theorem exists_stop (h : Words ws) {max : ℕ} (hmax : max < (unwords ws).length) :
    ∃ k, 0 < k ∧ k ≤ ws.length ∧
      (if walkBack (unwords ws) max = 0 then walkForward ((unwords ws).drop max) max
        else walkBack (unwords ws) max) = (unwords (ws.take k)).length ∧
      (IsGreatest {j | j ≤ ws.length ∧ (unwords (ws.take j)).length ≤ max} k ∨
        k = 1 ∧ max < (unwords (ws.take 1)).length) := by
  obtain ⟨hle, hspace, hnone⟩ := walkBack_spec (unwords ws) max
  split
  · rename_i hzero
    rw [hzero] at hnone
    obtain ⟨hfirst, hstop⟩ := walkForward_first h hmax hnone
    refine ⟨1, Nat.one_pos, Nat.one_le_iff_ne_zero.2 ?_, hstop, .inr ⟨rfl, hfirst⟩⟩
    rintro hnil
    simp [length_eq_zero_iff.1 hnil, unwords] at hmax
  · rename_i hne
    obtain ⟨k, hk, hlt, hstop⟩ := word_of_space h (hspace hne)
    refine ⟨k, hk, hlt.le, hstop.symm, .inl ⟨⟨hlt.le, by omega⟩, ?_⟩⟩
    rintro j ⟨hj, hjmax⟩
    by_contra hkj
    have hjlt : j < ws.length := by
      refine lt_of_le_of_ne hj fun heq => ?_
      rw [heq, List.take_length] at hjmax
      omega
    have hmore : (unwords ((ws.take j).take k)).length < _ :=
      length_unwords_lt hk (by rw [length_take]; omega)
    rw [take_take, min_eq_left (by omega)] at hmore
    have hend := space_of_word (Nat.zero_lt_of_lt (not_le.1 hkj)) hjlt
    rw [hnone _ (hstop ▸ hmore) hjmax] at hend
    cases hend

/-- **An excerpt is cut between words**, as late as the cap allows. -/
theorem isExcerpt_excerptOf (m : Matchers) (s : String) (max : ℤ) (hmax : 0 < max) :
    IsExcerpt (fields (plainText m s)) max (excerptOf m s max).toList := by
  have h := words_fields (plainText m s)
  generalize hws : fields (plainText m s) = ws at h
  simp only [excerptOf, hws, IsExcerpt, if_neg hmax.not_ge]
  split
  · exact String.toList_ofList
  rename_i hlong
  obtain ⟨n, rfl⟩ := Int.eq_ofNat_of_zero_le hmax.le
  obtain ⟨k, hk, hle, hstop, hcap⟩ := exists_stop h (show n < _ by omega)
  refine ⟨k, hk, hle, ?_, by simpa using hcap⟩
  have hleft : (unwords (ws.take k)).length < (unwords ws).length ↔ k < ws.length := by
    refine ⟨fun hlt => lt_of_le_of_ne hle fun heq => ?_, length_unwords_lt hk⟩
    rw [heq, List.take_length] at hlt
    exact lt_irrefl _ hlt
  rw [Int.toNat_natCast, hstop, take_unwords hk, rdropWhile_unwords (h.take k),
    String.toList_ofList]
  simp only [hleft]
  split <;> simp

/-- Three words, of which two fit. -/
def threeWords : String := "<p>one two</p> \n three"

/-- The cap is in the third word. -/
theorem isExcerpt_excerptOf_threeWords :
    IsExcerpt (fields (plainText (patterns asciiCase) threeWords)) 9
        (excerptOf (patterns asciiCase) threeWords 9).toList ∧
      excerptOf (patterns asciiCase) threeWords 9 = "one two…" :=
  ⟨isExcerpt_excerptOf (patterns asciiCase) threeWords 9 (by decide), by decide +kernel⟩

end AnimeFeedFlux.Contract
