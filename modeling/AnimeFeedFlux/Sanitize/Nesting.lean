import AnimeFeedFlux.Sanitize.Again
import Mathlib.Algebra.Ring.Int.Defs

/-!
# Nesting

A reader of HTML knows one void element among the allowed ones, `br`; a slash at the end of any
other start tag closes nothing.  `HTML` writes the slash of a self-closing tag and does not put the
element on its stack, so that nothing closes it.
-/

namespace AnimeFeedFlux.Sanitize

open GoStrings List

/-- What is open after a token, the innermost first; `none` once an end tag does not close it. -/
def nest : Option (List Bytes) → Token → Option (List Bytes)
  | none, _ => none
  | some opened, t =>
    match t.kind with
    | .text | .comment => some opened
    | .startTag | .selfClose => some (if t.name = utf8 "br" then opened else t.name :: opened)
    | .endTag => if opened.head? = some t.name then some opened.tail else none

/-- The tags of a text are balanced and nested. -/
def WellNested (u : CaseTable) (s : Bytes) : Prop := (tokenize u s).foldl nest (some []) = some []

theorem merges_nest : Merges nest where
  nil x := by cases x <;> rfl
  append x a b := by cases x <;> rfl

/-- The parts as a reader of HTML nests them. -/
def nestParts (opened : Option (List Bytes)) (ps : List Part) : Option (List Bytes) :=
  (ps.map Part.token).foldl nest opened

theorem nestParts_append (opened : Option (List Bytes)) (ps qs : List Part) :
    nestParts opened (ps ++ qs) = nestParts (nestParts opened ps) qs := by
  simp [nestParts]

theorem nestParts_endTags (l opened : List Bytes) :
    nestParts (some (l ++ opened)) (l.map .endTag) = some opened := by
  induction l with
  | nil => rfl
  | cons name l ih => simpa [nestParts, nest, Part.token] using ih

/-- An element that is written as closed and is not void. -/
def Part.selfClosed : Part → Bool
  | .startTag name closed _ => closed && name != utf8 "br"
  | _ => false

section
variable {u : CaseTable} {w w' : Writer} {t : Token} {ps : List Part}

theorem Writer.Writes.nest (h : w.Writes u t w' ps) (hps : ∀ p ∈ ps, p.selfClosed = false) :
    nestParts (some w.openStack.reverse) ps = some w'.openStack.reverse := by
  cases h with
  | nothing hout hopen =>
    rw [hopen]
    rfl
  | text hkind => rfl
  | startTag hkind hallowed =>
    simp only [Token.part, forall_mem_singleton, Part.selfClosed] at hps
    by_cases hbr : t.name = utf8 "br" <;> rcases hkind with hkind | hkind <;>
      simp_all [nestParts, Sanitize.nest, Part.token, Token.part]
  | endTag idx =>
    have hsplit : w.openStack.reverse =
        (w.openStack.drop idx).reverse ++ (w.openStack.take idx).reverse := by
      rw [← reverse_append, take_append_drop]
    rw [hsplit]
    exact nestParts_endTags _ _

theorem Writer.nest_allParts (u : CaseTable) (toks : List Token) (w : Writer)
    (h : ∀ p ∈ w.allParts u toks, p.selfClosed = false) :
    nestParts (some w.openStack.reverse) (w.allParts u toks) = some [] := by
  induction toks generalizing w with
  | nil => simpa [allParts] using nestParts_endTags w.openStack.reverse []
  | cons t toks ih =>
    rw [allParts, forall_mem_append] at h
    rw [allParts, nestParts_append, (w.writes u t).nest h.1, ih _ h.2]

/-- How many more elements are open after a part. -/
def Part.weight : Part → ℤ
  | .text _ => 0
  | .startTag name _ _ => if name = utf8 "br" then 0 else 1
  | .endTag _ => -1

theorem length_nestParts {opened opened' : List Bytes}
    (h : nestParts (some opened) ps = some opened') :
    (opened'.length : ℤ) = opened.length + (ps.map Part.weight).sum := by
  have hnone : ∀ ps, nestParts none ps = none := fun ps => by
    induction ps <;> simp_all [nestParts, Sanitize.nest]
  induction ps generalizing opened with
  | nil =>
    cases h
    simp
  | cons p ps ih =>
    cases hnest : Sanitize.nest (some opened) p.token with
    | none =>
      have hrest : nestParts (some opened) (p :: ps) = nestParts none ps := by
        simp [nestParts, hnest]
      rw [hrest, hnone] at h
      cases h
    | some mid =>
      have hrest : nestParts (some mid) ps = some opened' := by simpa [nestParts, hnest] using h
      rw [ih hrest, map_cons, sum_cons]
      have hmid : (mid.length : ℤ) = opened.length + p.weight := by
        cases p with
        | text s =>
          cases hnest
          simp [Part.weight]
        | startTag name closed href =>
          by_cases hbr : name = utf8 "br" <;> cases closed <;>
            simp [Sanitize.nest, Part.token, hbr] at hnest <;> simp [← hnest, Part.weight, hbr]
        | endTag name =>
          obtain ⟨hhead, htail⟩ := Option.ite_none_right_eq_some.1 hnest
          cases htail
          obtain ⟨rest, rfl⟩ := head?_eq_some_iff.1 hhead
          simp [Part.weight]
      omega

/-- What a part that closes itself leaves open, nothing closes. -/
theorem Writer.weight_allParts (u : CaseTable) (toks : List Token) (w : Writer) :
    ((w.allParts u toks).map Part.weight).sum + w.openStack.length =
      (w.allParts u toks).countP Part.selfClosed := by
  have hends : ∀ l : List Bytes, ((l.map Part.endTag).map Part.weight).sum = -(l.length : ℤ) ∧
      (l.map Part.endTag).countP Part.selfClosed = 0 := by
    intro l
    simp [Function.comp_def, Part.weight, Part.selfClosed]
  induction toks generalizing w with
  | nil =>
    rw [allParts, (hends _).1, (hends _).2, length_reverse]
    simp
  | cons t toks ih =>
    have hone : ((w.parts u t).map Part.weight).sum + w.openStack.length =
        (w.write u t).openStack.length + ((w.parts u t).countP Part.selfClosed : ℤ) := by
      have hwrites := w.writes u t
      generalize w.write u t = w', w.parts u t = ps at hwrites ⊢
      cases hwrites with
      | nothing hout hopen => simp [hopen]
      | text hkind => simp [Part.weight, Part.selfClosed]
      | startTag hkind hallowed =>
        by_cases hbr : t.name = utf8 "br" <;> rcases hkind with hkind | hkind <;>
          simp [Token.part, Part.weight, Part.selfClosed, hbr, hkind, Int.add_comm]
      | endTag idx =>
        have hsplit := congrArg List.length (w.openStack.take_append_drop idx)
        rw [length_append] at hsplit
        simp only [hends, closeFrom, length_reverse]
        omega
    have hrest := ih (w.write u t)
    rw [allParts, map_append, sum_append, countP_append]
    omega

end

/-- **Sanitized markup is well nested exactly when no element but `br` closes itself.** -/
theorem wellNested_html_iff (u : CaseTable) (s : Bytes) :
    WellNested u (html u s) ↔ ∀ t ∈ outside none (tokenize u s),
      t.kind = .selfClose → t.name ∈ allowedTags → t.name = utf8 "br" := by
  have hclosed : (∀ p ∈ parts u s, p.selfClosed = false) ↔ ∀ t ∈ outside none (tokenize u s),
      t.kind = .selfClose → t.name ∈ allowedTags → t.name = utf8 "br" := by
    rw [parts, Writer.forall_startTags (Q := fun p => p.selfClosed = false) (fun _ => rfl)
      fun _ => rfl]
    refine forall_congr' fun t => imp_congr_right fun _ => ?_
    by_cases hbr : t.name = utf8 "br" <;> cases hkind : t.kind <;>
      simp [Part.selfClosed, Token.part, hbr, hkind]
  rw [WellNested, html_eq, foldl_parts merges_nest _ (good_parts u s), ← hclosed]
  constructor
  · intro h
    have hweight := Writer.weight_allParts u (tokenize u s) {}
    have hlen := length_nestParts h
    have hzero : (parts u s).countP Part.selfClosed = 0 := by
      rw [parts] at hlen ⊢
      simp only [length_nil] at hlen hweight
      omega
    simpa using countP_eq_zero.1 hzero
  · exact Writer.nest_allParts u (tokenize u s) {}

/-- A paragraph that closes itself. -/
theorem not_wellNested_selfClosed : ¬WellNested asciiCase (html asciiCase (utf8 "<p/>")) := by
  rw [WellNested]
  decide +kernel

end AnimeFeedFlux.Sanitize
