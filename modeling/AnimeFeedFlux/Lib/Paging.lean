import Mathlib.Data.List.Basic

/-!
# Pages of an ordered list

A page of a list in strictly descending order holds the rows below the last row before it.  These
are the rows after that one, so the pages take the list apart.
-/

namespace AnimeFeedFlux.Paging

open List

variable {α β γ ε : Type} {rows : List α}

/-- The token of the page that begins after `n` rows: the row before it. -/
def tokenAt (rows : List α) (n : ℕ) : Option α := if n = 0 then none else rows[n - 1]?

/-- **The rows below the token of a page** are those from the page on. -/
theorem filter_tokenAt {r : α → α → Bool} (hasymm : ∀ a b, r a b → ¬r b a)
    (hdesc : rows.Pairwise fun a b => r b a) {n : ℕ} (hn : n ≤ rows.length) :
    rows.filter (fun a => (tokenAt rows n).all (r a)) = rows.drop n := by
  cases n with
  | zero => exact filter_eq_self.2 fun _ _ => rfl
  | succ n =>
    have hsplit : rows = rows.take n ++ rows[n] :: rows.drop (n + 1) := by
      rw [← drop_eq_getElem_cons hn, take_append_drop]
    have htoken : tokenAt rows (n + 1) = some rows[n] := getElem?_eq_getElem hn
    generalize rows[n] = t at hsplit htoken
    generalize rows.take n = before, rows.drop (n + 1) = after at hsplit ⊢
    subst hsplit
    rw [pairwise_append, pairwise_cons] at hdesc
    have hbefore : before.filter (fun a => r a t) = [] :=
      filter_eq_nil_iff.2 fun a ha => hasymm t a (hdesc.2.2 a ha t (mem_cons_self ..))
    have hafter : after.filter (fun a => r a t) = after := filter_eq_self.2 hdesc.2.1.1
    have hself : ¬r t t := fun h => hasymm t t h h
    simp only [htoken, Option.all_some, filter_append, filter_cons, if_neg hself, hbefore, hafter,
      nil_append]

/-- Page after page, as the token each one returns asks for. -/
def walk (page : Option α → Except ε (List γ × Option α)) : ℕ → Option α → Except ε (List γ)
  | 0, _ => .ok []
  | fuel + 1, token =>
    match page token with
    | .error err => .error err
    | .ok (got, none) => .ok got
    | .ok (got, some next) => (walk page fuel (some next)).map (got ++ ·)

/-- **The pages make up the list**, where each one shows the rows from its token on and returns
the token of the next one while rows remain. -/
theorem walk_tokenAt {page : Option α → Except ε (List γ × Option α)} {size : ℕ} (hsize : 0 < size)
    {shown : γ → β} {row : α → β}
    (hpage : ∀ n ≤ rows.length, ∃ got, page (tokenAt rows n) =
      .ok (got, if n + size < rows.length then tokenAt rows (n + size) else none) ∧
      got.map shown = ((rows.drop n).take size).map row) :
    ∀ fuel n, n ≤ rows.length → rows.length < n + fuel →
      ∃ got, walk page fuel (tokenAt rows n) = .ok got ∧ got.map shown = (rows.drop n).map row := by
  intro fuel
  induction fuel with
  | zero =>
    intro n hn hfuel
    omega
  | succ fuel ih =>
    intro n hn hfuel
    obtain ⟨got, hgot, hrows⟩ := hpage n hn
    by_cases hmore : n + size < rows.length
    · obtain ⟨rest, hrest, hrestRows⟩ := ih (n + size) (by omega) (by omega)
      have htoken : ∃ t, tokenAt rows (n + size) = some t :=
        ⟨_, (if_neg (by omega)).trans (getElem?_eq_getElem (by omega))⟩
      obtain ⟨t, ht⟩ := htoken
      rw [ht] at hrest
      refine ⟨got ++ rest, ?_, ?_⟩
      · simp only [walk, hgot, if_pos hmore, ht, hrest, Except.map]
      · rw [map_append, hrows, hrestRows, ← map_append, ← drop_drop, take_append_drop]
    · refine ⟨got, by simp only [walk, hgot, if_neg hmore], ?_⟩
      rw [hrows, take_of_length_le (by rw [length_drop]; omega)]

end AnimeFeedFlux.Paging
