import AnimeFeedFlux.Generate.Patterns
import AnimeFeedFlux.Publishing.Markup

/-!
# The links of a grounded feed

A grounded feed publishes links to articles that were fetched for the run, and no others.
`CheckLink` compares normal forms, and the item keeps the link as the model wrote it.  So among
addresses in normal form the link published is one of them, byte for byte, exactly if the model
wrote the normal form: otherwise it differs from the address it was accepted for by a tracking
parameter, a fragment, the case of the host or whatever else `Normalize` takes away.
-/

namespace AnimeFeedFlux

open GoStrings Urlnorm Contract List

variable {spec : GenSpec} {fetched : List SourceArticle} {u : CaseTable} {α β : Type}
  {R : α → β → Prop} {l : List α}

namespace LinksExample

def articles : List SourceArticle :=
  [{ title := "An article", url := "https://Example.com/a", published := 0 },
   { title := "Another", url := "https://example.com:443/b/", published := 0 },
   { title := "A third", url := "https://example.com/c", published := 0 }]

/-- A provider that answers with an item for each link. -/
def deps (links : List String) : Deps where
  toServices := scriptedServices (.ok ⟨links.map fun link =>
    { title := "News of " ++ link, summaryText := "News", bodyHTML := "Text", link }, ""⟩) 0
  recentTitles _ _ := .ok []
  candidates _ := .ok (normalized asciiCase articles)
  newestPublished _ := .ok 0

def feed : Feed :=
  { id := 1, slug := "news", title := "News", description := "", language := "en"
    kind := .grounded, author := "", copyright := "", ogImage := "", ttlMinutes := 15
    enabled := true, timezone := "UTC", lastBuiltAt := 0, createdAt := 0, version := 1 }

/-- The run, if the model writes these links. -/
def outcome (links : List String) : Option Outcome :=
  run ((deps links).checked (patterns asciiCase) asciiCase) feed { itemsPerRun := 2 }

def tracked : String := "https://example.com/a?utm_source=feed#top"

end LinksExample

end AnimeFeedFlux
