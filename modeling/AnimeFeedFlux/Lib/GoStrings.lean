import Mathlib.Data.List.Basic

/-!
# Go's `strings` package

The string functions that differ from Lean's or have no counterpart there.  Case mapping
needs the Unicode tables, so `toLower` takes the table of simple mappings as an argument;
white space is a short closed list and is written out.

Keys and Tag URIs are texts joined by a separator; `append_sep_inj` takes them apart.
-/

namespace AnimeFeedFlux.GoStrings

open List

def isSpace (c : Char) : Bool :=
  let n := c.toNat
  (9 ≤ n && n ≤ 13) || n == 0x20 || n == 0x85 || n == 0xA0 || n == 0x1680 ||
    (0x2000 ≤ n && n ≤ 0x200A) || n == 0x2028 || n == 0x2029 || n == 0x202F ||
    n == 0x205F || n == 0x3000

def trimSpace (s : String) : String :=
  String.ofList ((s.toList.dropWhile isSpace).reverse.dropWhile isSpace).reverse

/-- `strings.ToLower`, over the table `lower` of simple case mappings. -/
def toLower (lower : Char → Char) (s : String) : String :=
  String.ofList (s.toList.map lower)

def hasPrefix (s p : String) : Bool := p.toList.isPrefixOf s.toList

/-- `strings.Fields`. -/
def fields (s : String) : List (List Char) := (s.toList.splitOnP isSpace).filter (· ≠ [])

def trimPrefix (s p : String) : String :=
  if hasPrefix s p then String.ofList (s.toList.drop p.toList.length) else s

def trimSuffix (s p : String) : String :=
  if p.toList.isSuffixOf s.toList then
    String.ofList (s.toList.take (s.toList.length - p.toList.length))
  else s

example : trimSpace "\t a b \n" = "a b" := by decide

/-- What a closed list is checked for, character by character. -/
theorem forall_of_all {α : Type} {p : α → Prop} [DecidablePred p] {l : List α}
    (h : (l.all fun a => decide (p a)) = true) : ∀ a ∈ l, p a := by
  simpa using h

theorem trimSpace_eq_self {s : String} (h : ∀ c ∈ s.toList, isSpace c = false) :
    trimSpace s = s := by
  have hdrop : ∀ {l : List Char}, (∀ c ∈ l, isSpace c = false) → l.dropWhile isSpace = l := by
    intro l hl
    cases l with
    | nil => rfl
    | cons c l => simp [hl c mem_cons_self]
  rw [trimSpace, hdrop h, hdrop (by simpa using h), reverse_reverse, String.ofList_toList]

theorem toLower_eq_self {lower : Char → Char} {s : String} (h : ∀ c ∈ s.toList, lower c = c) :
    toLower lower s = s := by
  rw [toLower, map_congr_left h, map_id', String.ofList_toList]

/-! ## Replacing -/

section
variable {α : Type} [DecidableEq α]

/-- `strings.ReplaceAll` for an `old` that is not empty; `skip` is how much of a match is still to
be passed over. -/
def replaceAllFrom (old new : List α) : ℕ → List α → List α
  | _, [] => []
  | skip + 1, _ :: s => replaceAllFrom old new skip s
  | 0, c :: s =>
    if old.isPrefixOf (c :: s) then new ++ replaceAllFrom old new (old.length - 1) s
    else c :: replaceAllFrom old new 0 s

def replaceAll (old new s : List α) : List α := replaceAllFrom old new 0 s

variable {old new s : List α} {c : α}

theorem mem_of_mem_replaceAllFrom {skip : ℕ} (h : c ∈ replaceAllFrom old new skip s) :
    c ∈ new ∨ c ∈ s := by
  induction s generalizing skip with
  | nil => cases skip <;> cases h
  | cons d s ih =>
    have hcons : c ∈ new ∨ c ∈ s → c ∈ new ∨ c ∈ d :: s :=
      Or.imp_right (mem_cons_of_mem d)
    cases skip with
    | succ skip => exact hcons (ih h)
    | zero =>
      rw [replaceAllFrom] at h
      split at h
      · rcases mem_append.1 h with h | h
        · exact .inl h
        · exact hcons (ih h)
      · rcases mem_cons.1 h with rfl | h
        · exact .inr (mem_cons_self ..)
        · exact hcons (ih h)

theorem mem_of_mem_replaceAll (h : c ∈ replaceAll old new s) : c ∈ new ∨ c ∈ s :=
  mem_of_mem_replaceAllFrom h

theorem replaceAllFrom_append (old new t s : List α) :
    replaceAllFrom old new t.length (t ++ s) = replaceAll old new s := by
  induction t with
  | nil => rfl
  | cons c t ih => rw [length_cons, cons_append, replaceAllFrom, ih]

@[simp] theorem replaceAll_nil (old new : List α) : replaceAll old new [] = [] := rfl

theorem replaceAll_append (new : List α) (hold : old ≠ []) (s : List α) :
    replaceAll old new (old ++ s) = new ++ replaceAll old new s := by
  obtain ⟨c, t, rfl⟩ := exists_cons_of_ne_nil hold
  have hprefix : (c :: t).isPrefixOf (c :: (t ++ s)) = true :=
    List.isPrefixOf_iff_prefix.2 ⟨s, rfl⟩
  rw [replaceAll, cons_append, replaceAllFrom, if_pos hprefix, length_cons,
    Nat.add_sub_cancel, replaceAllFrom_append]

theorem replaceAll_cons (new : List α) (h : ¬ old <+: c :: s) :
    replaceAll old new (c :: s) = c :: replaceAll old new s := by
  rw [replaceAll, replaceAllFrom, if_neg fun hprefix => h (List.isPrefixOf_iff_prefix.1 hprefix)]
  rfl

end

/-! ## Texts joined by a separator -/

section
variable {α : Type} {c : α} {s s' t t' : List α}

theorem append_sep_inj (hs : c ∉ s) (hs' : c ∉ s') (h : s ++ c :: t = s' ++ c :: t') :
    s = s' ∧ t = t' := by
  induction s generalizing s' with
  | nil =>
    cases s' with
    | nil => exact ⟨rfl, by simpa using h⟩
    | cons a s' =>
      simp only [nil_append, cons_append, List.cons.injEq] at h
      exact absurd (h.1 ▸ mem_cons_self) hs'
  | cons a s ih =>
    cases s' with
    | nil =>
      simp only [nil_append, cons_append, List.cons.injEq] at h
      exact absurd (h.1 ▸ mem_cons_self) hs
    | cons b s' =>
      simp only [cons_append, List.cons.injEq] at h
      obtain ⟨hrest, ht⟩ := ih (fun hm => hs (mem_cons_of_mem _ hm))
        (fun hm => hs' (mem_cons_of_mem _ hm)) h.2
      exact ⟨by rw [h.1, hrest], ht⟩

theorem append_sep_inj_last (ht : c ∉ t) (ht' : c ∉ t') (h : s ++ c :: t = s' ++ c :: t') :
    s = s' ∧ t = t' := by
  have hreverse : t.reverse ++ c :: s.reverse = t'.reverse ++ c :: s'.reverse := by
    simpa using congrArg List.reverse h
  obtain ⟨h₁, h₂⟩ := append_sep_inj (by simpa using ht) (by simpa using ht') hreverse
  exact ⟨reverse_injective h₂, reverse_injective h₁⟩

end

end AnimeFeedFlux.GoStrings
