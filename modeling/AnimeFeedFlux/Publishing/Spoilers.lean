import AnimeFeedFlux.Generate.Patterns
import AnimeFeedFlux.Render.Documents
import AnimeFeedFlux.Sanitize.Html

/-!
# Answers in teasers

The card and the embed line of an item must not give its answer away.  `Validate` compares the
summary with the answer as the model wrote it; `validateFormats` compares the variants with the
answer as it is stored, after the sanitizer.  The sanitizer escapes a lone `<` and drops what
stands in a script, so the two texts can differ, and a variant that holds the first and not the
second passes.
-/

namespace AnimeFeedFlux

open GoStrings Contract Sanitize Render

section
variable (u : CaseTable)

/-- The item after a formatting response. -/
def formatted (it : Item) (f : ItemFormats) : Item :=
  { it with formats := validateFormats (patterns u) (htmlText u) f it }

/-- The text holds the text of the answer, which is not empty, whatever the case of letters. -/
def Spoils (text answer : String) : Prop := leaks (patterns u) text answer = true
deriving Decidable

/-- Neither teaser of the item gives the answer away. -/
def SpoilerFree (it : Item) (answer : String) : Prop :=
  ¬ Spoils u (cardText it) answer ∧ ¬ Spoils u (embedText it) answer

/-- A text variant that would be kept if there were no answer, and gives away the answer, gives
away the stored answer. -/
def StaysCaught (answer v : String) (max : ℕ) : Prop :=
  cleanText (patterns u) "" v max ≠ "" → Spoils u (trimSpace v) answer →
    Spoils u (trimSpace v) (htmlText u answer)

end

/-! ## The checks of a variant -/

section
variable {m : Matchers} {sanitize : String → String}

/-- What `Validate` accepts has a summary that does not give the answer away. -/
theorem leaks_of_validate {gi : GeneratedItem} {opts : Options} {it : Item}
    (h : validate m sanitize gi opts = .ok (it, [])) :
    leaks m (trimSpace gi.summaryText) gi.answerHTML = false := by
  have hrules := rejections_of_validate h
  simp only [rejections, answerRules, List.append_eq_nil_iff] at hrules
  obtain ⟨⟨⟨⟨⟨-, hsummary⟩, -⟩, hleak, -⟩, -⟩, -⟩ := hrules
  -- An empty summary is refused, so the rule is about the leak alone.
  have hne : trimSpace gi.summaryText ≠ "" := by
    intro hempty
    simp [summaryRules, hempty] at hsummary
  simpa [rule, hne] using hleak

theorem cleanText_eq (hstrip : plainText m "" = "") (answer v : String) (max : ℕ) :
    cleanText m answer v max =
      if leaks m (trimSpace v) answer then "" else cleanText m "" v max := by
  have hempty : leaks m (trimSpace v) "" = false := by
    simp [leaks, hstrip]
  simp only [cleanText, hempty]
  split
  · simp
  split
  · simp
  · simp

theorem cleanText_cases (answer v : String) (max : ℕ) :
    cleanText m answer v max = "" ∨ cleanText m answer v max = trimSpace v := by
  simp only [cleanText]
  split
  · exact .inl rfl
  split
  · exact .inl rfl
  · split
    · exact .inl rfl
    · exact .inr rfl

theorem orRaw_dropIfSame (v raw : String) : orRaw (dropIfSame v raw) raw = orRaw v raw := by
  by_cases hsame : v = raw
  · by_cases hempty : raw = ""
    · simp [orRaw, dropIfSame, hsame, hempty]
    · simp [orRaw, dropIfSame, hsame, hempty]
  · simp [dropIfSame, hsame]

end

section
variable {u : CaseTable}

theorem plainText_patterns_empty (u : CaseTable) : plainText (patterns u) "" = "" := by
  show trimSpace (stripTags "") = ""
  decide

theorem not_spoils_orRaw {answer summary : String} (hsummary : ¬ Spoils u summary answer)
    (v : String) (max : ℕ) :
    ¬ Spoils u (orRaw (cleanText (patterns u) (htmlText u answer) v max) summary) answer ↔
      StaysCaught u answer v max := by
  rw [cleanText_eq (plainText_patterns_empty u), StaysCaught]
  by_cases hstored : leaks (patterns u) (trimSpace v) (htmlText u answer) = true
  · simp only [hstored, if_true, orRaw, ne_eq, not_true_eq_false, if_false]
    exact ⟨fun _ _ _ => hstored, fun _ => hsummary⟩
  simp only [hstored, Bool.false_eq_true, if_false, Spoils]
  rcases cleanText_cases (m := patterns u) "" v max with hdropped | hkept
  · simpa [hdropped, orRaw, Spoils] using hsummary
  by_cases hempty : trimSpace v = ""
  · rw [hkept, hempty]
    simpa [orRaw, Spoils] using hsummary
  · simp [hkept, hempty, orRaw]

/-- **Which responses leave an accepted item without spoilers.** -/
theorem spoilerFree_iff {gi : GeneratedItem} {opts : Options} {it : Item}
    (h : validate (patterns u) (htmlText u) gi opts = .ok (it, [])) (f : ItemFormats) :
    SpoilerFree u (formatted u it f) gi.answerHTML ↔
      StaysCaught u gi.answerHTML f.cardText 280 ∧ StaysCaught u gi.answerHTML f.embedText 180 := by
  have hsummary : ¬ Spoils u (trimSpace gi.summaryText) gi.answerHTML := by
    rw [Spoils, leaks_of_validate h]
    exact Bool.false_ne_true
  obtain rfl := validate_ok h
  simp only [SpoilerFree, formatted, cardText, embedText, validateFormats, rawItem,
    orRaw_dropIfSame]
  exact and_congr (not_spoils_orRaw hsummary _ _) (not_spoils_orRaw hsummary _ _)

end

namespace SpoilersExample

/-- A question with this answer. -/
def candidate (answer : String) : GeneratedItem :=
  { title := "Name the series", summaryText := "Which series ran in the spring?"
    bodyHTML := "<p>Which one?</p>", answerHTML := answer }

def opts : Options := { kind := .generative }

/-- A response whose card gives the answer away, and whose embed line does not. -/
def response (answer : String) : ItemFormats :=
  { cardText := "It was " ++ answer, embedText := "A question about the spring" }

/-- The item as `Validate` accepts it. -/
def accepted (answer : String) : Item :=
  rawItem "Name the series" "Which series ran in the spring?" "<p>Which one?</p>" answer "" ""

theorem validate_plain :
    validate (patterns asciiCase) (htmlText asciiCase) (candidate "Trains") opts =
      .ok (accepted "Trains", []) := by
  decide +kernel

theorem validate_escaped :
    validate (patterns asciiCase) (htmlText asciiCase) (candidate "I <3 Trains") opts =
      .ok (accepted "I &lt;3 Trains", []) := by
  decide +kernel

/-- The card is dropped, the embed line is kept, and neither gives the answer away. -/
theorem spoilerFree_iff_plain :
    cardText (formatted asciiCase (accepted "Trains") (response "TRAINS")) =
      "Which series ran in the spring?" ∧
    embedText (formatted asciiCase (accepted "Trains") (response "TRAINS")) =
      "A question about the spring" ∧
    StaysCaught asciiCase "Trains" (response "TRAINS").cardText 280 ∧
    StaysCaught asciiCase "Trains" (response "TRAINS").embedText 180 ∧
    SpoilerFree asciiCase (formatted asciiCase (accepted "Trains") (response "TRAINS"))
      "Trains" := by
  have hcard : StaysCaught asciiCase "Trains" (response "TRAINS").cardText 280 :=
    fun _ _ => by decide +kernel
  have hembed : StaysCaught asciiCase "Trains" (response "TRAINS").embedText 180 :=
    fun _ hspoils => absurd hspoils (by decide +kernel)
  exact ⟨by decide +kernel, by decide +kernel, hcard, hembed,
    (spoilerFree_iff validate_plain (response "TRAINS")).2 ⟨hcard, hembed⟩⟩

/-- The card is published. -/
theorem not_spoilerFree_escaped :
    validate (patterns asciiCase) (htmlText asciiCase) (candidate "I <3 Trains") opts =
        .ok (accepted "I &lt;3 Trains", []) ∧
      cardText (formatted asciiCase (accepted "I &lt;3 Trains") (response "I <3 Trains")) =
      "It was I <3 Trains" ∧
      ¬ SpoilerFree asciiCase
        (formatted asciiCase (accepted "I &lt;3 Trains") (response "I <3 Trains"))
        "I <3 Trains" := by
  have hcard : cardText (formatted asciiCase (accepted "I &lt;3 Trains") (response "I <3 Trains")) =
      "It was I <3 Trains" := by
    decide +kernel
  refine ⟨validate_escaped, hcard, fun hfree => hfree.1 ?_⟩
  rw [hcard, Spoils]
  decide +kernel

end SpoilersExample

end AnimeFeedFlux
