import AnimeFeedFlux.Lib.Bytes

/-!
# Reading XML

A reader for XML 1.0 documents, one character at a time over a stack of open elements.  It knows
elements with attributes, character data, CDATA sections, character references and the predefined
entities, and refuses comments, processing instructions and document type declarations; names are
ASCII.  So what it reads is well formed, and it reads what a parser reports: line ends are line
feeds, references are resolved, and blanks in attribute values are spaces.

The content of an element is a list of characters and elements, so character data from adjacent
sections needs no merging.  `Frag s ns` says that the text `s`, wherever it stands inside an
element, adds the contents `ns`; fragments compose.
-/

namespace AnimeFeedFlux.Xml

open GoStrings List

/-! ## Characters -/

/-- The characters of a document. -/
def isChar (c : Char) : Bool :=
  let n := c.toNat
  n == 0x9 || n == 0xA || n == 0xD || (0x20 ≤ n && n ≤ 0xD7FF) || (0xE000 ≤ n && n ≤ 0xFFFD) ||
    (0x10000 ≤ n && n ≤ 0x10FFFF)

/-- White space. -/
def isSpace (c : Char) : Bool := c == ' ' || c == '\t' || c == '\n' || c == '\r'

def isNameStart (c : Char) : Bool := c.isAlpha || c == '_' || c == ':'

def isNameChar (c : Char) : Bool := isNameStart c || c.isDigit || c == '-' || c == '.'

/-- A name. -/
def isName (name : List Char) : Bool :=
  name.head?.any isNameStart && name.all fun c => isNameChar c && isChar c

/-- The value of a digit. -/
def digitValue (c : Char) : Option ℕ :=
  if c.isDigit then some (c.toNat - 48)
  else if 'a' ≤ c ∧ c ≤ 'f' then some (c.toNat - 97 + 10)
  else if 'A' ≤ c ∧ c ≤ 'F' then some (c.toNat - 65 + 10)
  else none

/-- The character with this number. -/
def codePoint (base : ℕ) (digits : List Char) : Option Char :=
  if digits = [] then none
  else
    let code := digits.foldlM (fun n c => (digitValue c).bind fun d =>
      if d < base then some (n * base + d) else none) 0
    code.bind fun n => if n.isValidChar && isChar (Char.ofNat n) then some (Char.ofNat n) else none

/-- The character a reference stands for, by what is between `&` and `;`. -/
def resolve (ref : List Char) : Option Char :=
  match ref with
  | '#' :: 'x' :: digits => codePoint 16 digits
  | '#' :: digits => codePoint 10 digits
  | _ => [("lt".toList, '<'), ("gt".toList, '>'), ("amp".toList, '&'), ("apos".toList, '\''),
      ("quot".toList, '"')].lookup ref

/-! ## The reader -/

/-- The attributes of an element, by name. -/
abbrev Attrs := List (List Char × List Char)

/-- What an element may contain. -/
inductive Content
  | char (c : Char)
  | elem (name : List Char) (attrs : Attrs) (children : List Content)

/-- An element that is open; the latest content comes first. -/
structure Frame where
  name : List Char
  attrs : Attrs := []
  children : List Content := []

/-- Where in a start tag the reader is. -/
inductive TagPos
  | name
  /-- After white space. -/
  | space
  /-- After an attribute. -/
  | after
  | key (key : List Char)
  /-- Before the equals sign. -/
  | equals (key : List Char)
  /-- Before the quote. -/
  | quote (key : List Char)
  | value (key : List Char) (q : Char) (v : List Char)
  | reference (key : List Char) (q : Char) (v ref : List Char)
  /-- After the slash of an empty element. -/
  | slash

/-- What the reader is in the middle of.  `brackets` counts the closing brackets just read: three
characters end a CDATA section, and may not stand in character data. -/
inductive Mode
  | content (brackets : ℕ)
  | reference (ref : List Char)
  /-- After `<`. -/
  | markup
  /-- After `<!`. -/
  | marked (read : List Char)
  | cdata (brackets : ℕ)
  | startTag (tag : Frame) (pos : TagPos)
  | endTag (name : List Char) (spaced : Bool)

/-- The reader's state: the open elements, innermost first, and the root once it is closed. -/
structure State where
  mode : Mode := .content 0
  stack : List Frame := []
  root : Option Content := none

/-- More content. -/
def Frame.push (f : Frame) (ns : List Content) : Frame :=
  { f with children := ns.reverse ++ f.children }

/-- The element, when it is closed. -/
def Frame.elem (f : Frame) : Content := .elem f.name f.attrs f.children.reverse

/-- The end of a start tag; there is one root. -/
def State.opened (σ : State) (tag : Frame) : Option State :=
  if σ.stack.isEmpty && σ.root.isSome then none
  else some { σ with mode := .content 0, stack := tag :: σ.stack }

/-- The end of an end tag. -/
def State.closed (σ : State) (name : List Char) : Option State :=
  match σ.stack with
  | [] => none
  | f :: fs =>
    if f.name ≠ name then none
    else match fs with
      | [] => some { mode := .content 0, stack := [], root := some f.elem }
      | g :: gs => some { σ with mode := .content 0, stack := g.push [f.elem] :: gs }

/-- After a name or an attribute: white space, a slash or the end of the tag. -/
def State.boundary (σ : State) (tag : Frame) (c : Char) : Option State :=
  if isSpace c then some { σ with mode := .startTag tag .space }
  else if c = '/' then some { σ with mode := .startTag tag .slash }
  else if c = '>' then σ.opened tag
  else none

/-- A character of a start tag. -/
def State.stepTag (σ : State) (tag : Frame) (pos : TagPos) (c : Char) : Option State :=
  match pos with
  | .name =>
    if isNameChar c then
      some { σ with mode := .startTag { tag with name := tag.name ++ [c] } .name }
    else σ.boundary tag c
  | .space =>
    if isNameStart c then some { σ with mode := .startTag tag (.key [c]) }
    else σ.boundary tag c
  | .after => σ.boundary tag c
  | .key key =>
    if isNameChar c then some { σ with mode := .startTag tag (.key (key ++ [c])) }
    else if c = '=' then some { σ with mode := .startTag tag (.quote key) }
    else if isSpace c then some { σ with mode := .startTag tag (.equals key) }
    else none
  | .equals key =>
    if c = '=' then some { σ with mode := .startTag tag (.quote key) }
    else if isSpace c then some σ
    else none
  | .quote key =>
    if c = '"' ∨ c = '\'' then some { σ with mode := .startTag tag (.value key c []) }
    else if isSpace c then some σ
    else none
  | .value key q v =>
    if c = q then
      if (tag.attrs.map (·.1)).contains key then none
      else some { σ with mode := .startTag { tag with attrs := tag.attrs ++ [(key, v)] } .after }
    else if c = '<' then none
    else if c = '&' then some { σ with mode := .startTag tag (.reference key q v []) }
    else some { σ with mode := .startTag tag (.value key q (v ++ [if isSpace c then ' ' else c])) }
  | .reference key q v ref =>
    if c = ';' then
      (resolve ref).map fun r => { σ with mode := .startTag tag (.value key q (v ++ [r])) }
    else some { σ with mode := .startTag tag (.reference key q v (ref ++ [c])) }
  | .slash => if c = '>' then (σ.opened tag).bind (·.closed tag.name) else none

/-- A character inside an element, or outside all. -/
def State.stepContent (σ : State) (brackets : ℕ) (c : Char) : Option State :=
  if c = '<' then some { σ with mode := .markup }
  else match σ.stack with
    | [] => if isSpace c then some σ else none
    | f :: fs =>
      if c = '&' then some { σ with mode := .reference [] }
      else if c = '>' ∧ 2 ≤ brackets then none
      else some { σ with mode := .content (if c = ']' then brackets + 1 else 0)
                         stack := f.push [.char c] :: fs }

/-- A character of a CDATA section; the brackets just read may belong to its end. -/
def State.stepCdata (σ : State) (brackets : ℕ) (c : Char) : Option State :=
  match σ.stack with
  | [] => none
  | f :: fs =>
    if c = ']' then
      if brackets < 2 then some { σ with mode := .cdata (brackets + 1) }
      else some { σ with stack := f.push [.char ']'] :: fs }
    else if c = '>' ∧ brackets = 2 then some { σ with mode := .content 0 }
    else some { σ with mode := .cdata 0
                       stack := f.push (List.replicate brackets (.char ']') ++ [.char c]) :: fs }

/-- What opens a CDATA section after `<!`. -/
def cdataStart : List Char := "[CDATA[".toList

/-- One character. -/
def step (σ : State) (c : Char) : Option State :=
  if !isChar c then none
  else match σ.mode with
    | .content n => σ.stepContent n c
    | .reference ref =>
      if c = ';' then
        match σ.stack, resolve ref with
        | f :: fs, some r => some { σ with mode := .content 0, stack := f.push [.char r] :: fs }
        | _, _ => none
      else some { σ with mode := .reference (ref ++ [c]) }
    | .markup =>
      if c = '/' then some { σ with mode := .endTag [] false }
      else if c = '!' then some { σ with mode := .marked [] }
      else if isNameStart c then some { σ with mode := .startTag { name := [c] } .name }
      else none
    | .marked read =>
      if σ.stack.isEmpty then none
      else if read ++ [c] = cdataStart then some { σ with mode := .cdata 0 }
      else if (read ++ [c]).isPrefixOf cdataStart then
        some { σ with mode := .marked (read ++ [c]) }
      else none
    | .cdata n => σ.stepCdata n c
    | .startTag tag pos => σ.stepTag tag pos c
    | .endTag name spaced =>
      if !spaced && isNameChar c then some { σ with mode := .endTag (name ++ [c]) false }
      else if c = '>' then σ.closed name
      else if isSpace c then some { σ with mode := .endTag name true }
      else none

/-- The characters of a text, one after the other. -/
def run : State → List Char → Option State
  | σ, [] => some σ
  | σ, c :: s => (step σ c).bind fun σ' => run σ' s

@[simp] theorem run_nil (σ : State) : run σ [] = some σ := rfl

theorem run_cons (σ : State) (c : Char) (s : List Char) :
    run σ (c :: s) = (step σ c).bind fun σ' => run σ' s := rfl

theorem run_append (σ : State) (s t : List Char) :
    run σ (s ++ t) = (run σ s).bind fun σ' => run σ' t := by
  induction s generalizing σ with
  | nil => rfl
  | cons c s ih =>
    rw [cons_append, run_cons, run_cons, Option.bind_assoc]
    exact congrArg _ (funext ih)

variable {s : List Char}

theorem run_append_of_eq {σ σ' : State} (h : run σ s = some σ') (t : List Char) :
    run σ (s ++ t) = run σ' t := by
  rw [run_append, h]
  rfl

variable {c : Char}

theorem run_cons_of_eq {σ σ' : State} (h : step σ c = some σ') (t : List Char) :
    run σ (c :: t) = run σ' t := by
  rw [run_cons, h]
  rfl

theorem run_collect (mode : List Char → Mode) {ok : Char → Prop} {fs : List Frame}
    {r : Option Content}
    (hstep : ∀ read d, ok d → step ⟨mode read, fs, r⟩ d = some ⟨mode (read ++ [d]), fs, r⟩)
    (hs : ∀ d ∈ s, ok d) (read : List Char) :
    run ⟨mode read, fs, r⟩ s = some ⟨mode (read ++ s), fs, r⟩ := by
  induction s generalizing read with
  | nil => rw [append_nil, run_nil]
  | cons d s ih =>
    rw [run_cons_of_eq (hstep read d (hs d (mem_cons_self ..))),
      ih fun x hx => hs x (mem_cons_of_mem _ hx), append_assoc]
    rfl

/-! ## Documents -/

/-- Line ends become line feeds. -/
def normalizeNewlines : List Char → List Char
  | [] => []
  | '\r' :: '\n' :: s => '\n' :: normalizeNewlines s
  | '\r' :: s => '\n' :: normalizeNewlines s
  | c :: s => c :: normalizeNewlines s

/-- What opens an XML declaration, up to the name of the encoding. -/
def declStart : List Char := "<?xml version=\"1.0\" encoding=\"".toList

/-- The document after its XML declaration, if it has one.  The declaration names the encoding and
is laid out as writers do. -/
def afterDecl (s : List Char) : Option (List Char) :=
  if !"<?xml".toList.isPrefixOf s then some s
  else if !declStart.isPrefixOf s then none
  else
    let rest := s.drop declStart.length
    let encoding := rest.takeWhile (· != '"')
    if encoding.map Char.toLower = "utf-8".toList ∧
        "\"?>".toList.isPrefixOf (rest.drop encoding.length) then
      some ((rest.drop encoding.length).drop 3)
    else none

/-- The text of well-formed UTF-8. -/
def decode (s : Bytes) : Option (List Char) := if encode (runes s) = s then some (runes s) else none

/-- The root of a document. -/
def parse (s : Bytes) : Option Content :=
  match decode s with
  | none => none
  | some cs =>
    match (afterDecl (normalizeNewlines cs)).bind fun body => run {} body with
    | some ⟨.content _, [], root⟩ => root
    | _ => none

/-! ## Queries -/

/-- What is in the children with this name. -/
def named (name : List Char) (ns : List Content) : List (List Content) :=
  ns.filterMap fun
    | .char _ => none
    | .elem child _ inner => if child = name then some inner else none

/-- The character data, without that of the children. -/
def charData (ns : List Content) : List Char :=
  ns.filterMap fun
    | .char c => some c
    | .elem _ _ _ => none

section
variable (name : List Char)

@[simp] theorem named_nil : named name [] = [] := rfl

@[simp] theorem named_append (ns ms : List Content) :
    named name (ns ++ ms) = named name ns ++ named name ms := filterMap_append

@[simp] theorem named_char (c : Char) (ns : List Content) :
    named name (.char c :: ns) = named name ns := rfl

@[simp] theorem named_elem (child : List Char) (attrs : Attrs)
    (inner ns : List Content) :
    named name (.elem child attrs inner :: ns) =
      if child = name then inner :: named name ns else named name ns := by
  by_cases h : child = name
  · simp [named, h]
  · simp [named, h]

@[simp] theorem named_chars (s : List Char) : named name (s.map .char) = [] := by
  induction s with
  | nil => rfl
  | cons c s ih => exact ih

@[simp] theorem named_flatMap {α : Type} (node : α → List Content) (l : List α) :
    named name (l.flatMap node) = l.flatMap fun a => named name (node a) := by
  induction l with
  | nil => rfl
  | cons a l ih => simp [ih]

end

@[simp] theorem charData_chars (s : List Char) : charData (s.map .char) = s := by
  induction s with
  | nil => rfl
  | cons c s ih => exact congrArg (c :: ·) ih

/-! ## Pieces of a document -/

@[simp] theorem Frame.push_push (f : Frame) (ns ms : List Content) :
    (f.push ns).push ms = f.push (ns ++ ms) := by
  simp [Frame.push]

@[simp] theorem Frame.push_nil (f : Frame) : f.push [] = f := rfl

/-- Inside an element, the text `s` adds the contents `ns` to it and opens nothing. -/
structure Frag (s : List Char) (ns : List Content) : Prop where
  clean : '\r' ∉ s
  reads : ∀ (n : ℕ) (f : Frame) (fs : List Frame) (r : Option Content),
    ∃ n', run ⟨.content n, f :: fs, r⟩ s = some ⟨.content n', f.push ns :: fs, r⟩

theorem Frag.nil : Frag [] [] := ⟨not_mem_nil, fun n _ _ _ => ⟨n, rfl⟩⟩

variable {ns ms : List Content} {e : List Char}

theorem Frag.append {t : List Char} (hs : Frag s ns) (ht : Frag t ms) :
    Frag (s ++ t) (ns ++ ms) := by
  refine ⟨?_, fun n f fs r => ?_⟩
  · rw [mem_append]
    exact not_or.2 ⟨hs.clean, ht.clean⟩
  obtain ⟨n', hn'⟩ := hs.reads n f fs r
  obtain ⟨n'', hn''⟩ := ht.reads n' (f.push ns) fs r
  refine ⟨n'', ?_⟩
  rw [run_append_of_eq hn', hn'', Frame.push_push]

theorem Frag.unique {s : List Char} (hn : Frag s ns) (hm : Frag s ms) : ns = ms := by
  obtain ⟨n, hn⟩ := hn.reads 0 ⟨[], [], []⟩ [] none
  obtain ⟨m, hm⟩ := hm.reads 0 ⟨[], [], []⟩ [] none
  have heq := hn.symm.trans hm
  simp only [Frame.push, append_nil, Option.some.injEq, State.mk.injEq, List.cons.injEq,
    Frame.mk.injEq, reverse_inj, true_and, and_true] at heq
  exact heq.2

theorem Frag.flatMap {α : Type} {text : α → List Char} {node : α → List Content} {l : List α}
    (h : ∀ a ∈ l, Frag (text a) (node a)) : Frag (l.flatMap text) (l.flatMap node) := by
  induction l with
  | nil => exact Frag.nil
  | cons a l ih =>
    rw [flatMap_cons, flatMap_cons]
    exact (h a (mem_cons_self ..)).append (ih fun x hx => h x (mem_cons_of_mem _ hx))

theorem Frag.ite {p : Prop} [Decidable p] (h : Frag s ns) :
    Frag (if p then s else []) (if p then ns else []) := by
  split
  · exact h
  · exact Frag.nil

/-- Ways to write a character: as it is, or as a reference. -/
inductive Writes : List Char → Char → Prop
  | plain {c : Char} (hchar : isChar c = true) (hplain : c ∉ ['<', '&', '>', '"', '\r']) :
      Writes [c] c
  | reference (ref : List Char) {c : Char} (hresolve : resolve ref = some c)
      (href : ∀ d ∈ ref, isChar d = true ∧ d ≠ ';' ∧ d ≠ '\r') (hspace : isSpace c = false) :
      Writes ('&' :: (ref ++ [';'])) c

theorem Writes.clean (h : Writes e c) : '\r' ∉ e := by
  cases h with
  | plain hchar hplain =>
    intro hmem
    obtain rfl := mem_singleton.1 hmem
    exact hplain (by decide)
  | reference ref hresolve href hspace =>
    intro hmem
    rcases mem_cons.1 hmem with hamp | hmem
    · exact absurd hamp (by decide)
    rcases mem_append.1 hmem with hmem | hmem
    · exact (href _ hmem).2.2 rfl
    · exact absurd (mem_singleton.1 hmem) (by decide)

theorem frag_writes (h : Writes e c) : Frag e [.char c] := by
  refine ⟨h.clean, fun n f fs r => ?_⟩
  cases h with
  | plain hchar hplain =>
    simp only [mem_cons, not_mem_nil, or_false, not_or] at hplain
    obtain ⟨hlt, hamp, hgt, -⟩ := hplain
    refine ⟨if c = ']' then n + 1 else 0, ?_⟩
    have hstep : step ⟨.content n, f :: fs, r⟩ c =
        some ⟨.content (if c = ']' then n + 1 else 0), f.push [.char c] :: fs, r⟩ := by
      simp [step, State.stepContent, hchar, hlt, hamp, hgt]
    rw [run_cons_of_eq hstep, run_nil]
  | reference ref hresolve href hspace =>
    refine ⟨0, ?_⟩
    have hamp : step ⟨.content n, f :: fs, r⟩ '&' = some ⟨.reference [], f :: fs, r⟩ := rfl
    have href : run ⟨.reference [], f :: fs, r⟩ ref = some ⟨.reference ref, f :: fs, r⟩ := by
      refine run_collect Mode.reference (fun read d hd => ?_) href []
      simp [step, hd.1, hd.2.1]
    have hsemi : step ⟨.reference ref, f :: fs, r⟩ ';' =
        some ⟨.content 0, f.push [.char c] :: fs, r⟩ := by
      simp [step, hresolve, show isChar ';' = true from rfl]
    rw [run_cons_of_eq hamp, run_append_of_eq href, run_cons_of_eq hsemi, run_nil]

/-- **Escaped character data.** -/
theorem frag_escaped {esc : Char → List Char} (h : ∀ c ∈ s, Writes (esc c) c) :
    Frag (s.flatMap esc) (s.map .char) := by
  rw [map_eq_flatMap]
  exact Frag.flatMap fun c hc => frag_writes (h c hc)

theorem frag_plain (h : ∀ c ∈ s, isChar c ∧ c ∉ ['<', '&', '>', '"', '\r']) :
    Frag s (s.map .char) := by
  have hfrag : Frag (s.flatMap fun c => [c]) (s.map .char) :=
    frag_escaped fun c hc => .plain (h c hc).1 (h c hc).2
  rwa [flatMap_singleton'] at hfrag

/-! ## CDATA sections -/

/-- What ends a CDATA section. -/
def cdataEnd : List Char := "]]>".toList

/-- The end mark split over two sections. -/
def cdataSplit : List Char := "]]]]><![CDATA[>".toList

/-- **The inside of a CDATA section**, with every end mark in it split, up to its end.  Of what was
read before, `n` brackets are not part of the content yet; none of them begins an end mark. -/
theorem run_cdata (s : List Char) {n : ℕ} {f : Frame} {fs : List Frame} {r : Option Content}
    (hn : n ≤ 2) (hone : 1 ≤ n → ¬ [']', '>'] <+: s) (htwo : n = 2 → ¬ ['>'] <+: s)
    (hs : ∀ c ∈ s, isChar c) :
    run ⟨.cdata n, f :: fs, r⟩ (replaceAll cdataEnd cdataSplit s ++ cdataEnd) =
      some ⟨.content 0, f.push ((List.replicate n ']' ++ s).map .char) :: fs, r⟩ := by
  induction hlen : s.length using Nat.strongRecOn generalizing s n f with
  | ind len ih =>
    have hcases : n = 0 ∨ n = 1 ∨ n = 2 := by omega
    by_cases hsplit : cdataEnd <+: s
    · -- The mark is split: its brackets end one section, and `>` begins the next.
      obtain ⟨rest, rfl⟩ := hsplit
      rw [replaceAll_append _ (by decide), append_assoc]
      have hmark : run ⟨.cdata n, f :: fs, r⟩ cdataSplit =
          some ⟨.cdata 0, f.push ((List.replicate n ']' ++ cdataEnd).map .char) :: fs, r⟩ := by
        rcases hcases with rfl | rfl | rfl <;> rfl
      rw [run_append_of_eq hmark, ih rest.length
          (by rw [← hlen, length_append]; exact Nat.lt_add_of_pos_left (by decide))
          rest (by omega) (by omega) (by omega) (fun c hc => hs c (mem_append_right _ hc)) rfl]
      simp
    · cases s with
      | nil => rcases hcases with rfl | rfl | rfl <;> rfl
      | cons c s =>
        have hchar := hs c (mem_cons_self ..)
        have hrest : ∀ d ∈ s, isChar d = true := fun d hd => hs d (mem_cons_of_mem _ hd)
        have hlt : s.length < len := by rw [← hlen]; exact Nat.lt_succ_self _
        rw [replaceAll_cons _ hsplit, cons_append]
        by_cases hbracket : c = ']'
        · subst hbracket
          have hnext : ¬ [']', '>'] <+: s := fun h => hsplit (cons_prefix_cons.2 ⟨rfl, h⟩)
          have hgt : 1 ≤ n → ¬ ['>'] <+: s :=
            fun h1 h => hone h1 (cons_prefix_cons.2 ⟨rfl, h⟩)
          by_cases hlt2 : n < 2
          · have hstep : step ⟨.cdata n, f :: fs, r⟩ ']' = some ⟨.cdata (n + 1), f :: fs, r⟩ := by
              simp [step, State.stepCdata, hchar, hlt2]
            rw [run_cons_of_eq hstep, ih s.length hlt s (by omega) (fun _ => hnext)
              (fun h => hgt (by omega)) hrest rfl, replicate_succ']
            simp
          · obtain rfl : n = 2 := by omega
            have hstep : step ⟨.cdata 2, f :: fs, r⟩ ']' =
                some ⟨.cdata 2, f.push [.char ']'] :: fs, r⟩ := by
              simp [step, State.stepCdata, hchar]
            rw [run_cons_of_eq hstep, ih s.length hlt s (by omega) (fun _ => hnext)
              (fun h => hgt (by omega)) hrest rfl]
            simp [List.replicate]
        · have hend : ¬ (c = '>' ∧ n = 2) := by
            rintro ⟨rfl, rfl⟩
            exact htwo rfl (cons_prefix_cons.2 ⟨rfl, List.nil_prefix⟩)
          have hstep : step ⟨.cdata n, f :: fs, r⟩ c = some ⟨.cdata 0,
              f.push (List.replicate n (.char ']') ++ [.char c]) :: fs, r⟩ := by
            simp [step, State.stepCdata, hchar, hbracket, hend]
          rw [run_cons_of_eq hstep, ih s.length hlt s (by omega) (by omega) (by omega) hrest rfl]
          simp

/-- **A text in CDATA sections.** -/
theorem frag_cdata (hs : ∀ c ∈ s, isChar c) (hclean : '\r' ∉ s) :
    Frag ("<![CDATA[".toList ++ (replaceAll cdataEnd cdataSplit s ++ cdataEnd)) (s.map .char) := by
  refine ⟨?_, fun n f fs r => ⟨0, ?_⟩⟩
  · simp only [mem_append, not_or]
    refine ⟨by decide, fun hmem => ?_, by decide⟩
    rcases mem_of_mem_replaceAll hmem with hnew | hold
    · exact absurd hnew (by decide)
    · exact hclean hold
  · have hstart : run ⟨.content n, f :: fs, r⟩ "<![CDATA[".toList =
        some ⟨.cdata 0, f :: fs, r⟩ := rfl
    rw [run_append_of_eq hstart, run_cdata s (by omega) (by omega) (by omega) hs]
    rfl

def cdataBegin : List Char := "<![CDATA[".toList

/-- A CDATA section. -/
def cdataSection (t : List Char) : List Char := cdataBegin ++ (t ++ cdataEnd)

theorem exists_sections (s : List Char) : ∃ t ts, t <+: s ∧ (∀ u ∈ t :: ts, ¬ cdataEnd <:+: u) ∧
    replaceAll cdataEnd cdataSplit s ++ cdataEnd = t ++ (cdataEnd ++ ts.flatMap cdataSection) := by
  induction hlen : s.length using Nat.strongRecOn generalizing s with
  | ind n ih =>
    by_cases hmark : cdataEnd <+: s
    · obtain ⟨rest, rfl⟩ := hmark
      obtain ⟨t, ts, -, hclean, htext⟩ := ih rest.length
        (by rw [← hlen, length_append]; exact Nat.lt_add_of_pos_left (by decide)) rest rfl
      refine ⟨[']', ']'], ('>' :: t) :: ts, by simp [cdataEnd], ?_, ?_⟩
      · rw [forall_mem_cons] at hclean
        simp only [forall_mem_cons, infix_cons_iff]
        refine ⟨by simp [cdataEnd], not_or.2 ⟨fun h => ?_, hclean.1⟩, hclean.2⟩
        simp [cdataEnd] at h
      · have hsplit : cdataSplit = [']', ']'] ++ (cdataEnd ++ (cdataBegin ++ ['>'])) := by decide
        rw [replaceAll_append _ (by decide), append_assoc, htext, hsplit]
        simp [cdataSection]
    cases s with
    | nil => exact ⟨[], [], List.nil_prefix, by decide, rfl⟩
    | cons c s =>
      obtain ⟨t, ts, hprefix, hclean, htext⟩ :=
        ih s.length (by rw [← hlen]; exact Nat.lt_succ_self _) s rfl
      refine ⟨c :: t, ts, cons_prefix_cons.2 ⟨rfl, hprefix⟩, ?_, ?_⟩
      · simp only [forall_mem_cons, infix_cons_iff] at hclean ⊢
        refine ⟨not_or.2 ⟨fun h => hmark (h.trans ?_), hclean.1⟩, hclean.2⟩
        exact cons_prefix_cons.2 ⟨rfl, hprefix⟩
      · rw [replaceAll_cons _ hmark, cons_append, htext, cons_append]

/-! ## Tags -/

/-- Writing the attributes of a tag. -/
def attrsText (esc : Char → List Char) (attrs : Attrs) : List Char :=
  attrs.flatMap fun a => ' ' :: (a.1 ++ '=' :: '"' :: (a.2.flatMap esc ++ ['"']))

/-- An attribute value as it is read: blanks are spaces. -/
def attrValue (v : List Char) : List Char := v.map fun c => if isSpace c then ' ' else c

/-- Attributes a tag may have. -/
structure WritesAttrs (esc : Char → List Char) (attrs : Attrs) : Prop where
  keys : ∀ a ∈ attrs, isName a.1 = true
  values : ∀ a ∈ attrs, ∀ c ∈ a.2, Writes (esc c) c
  nodup : (attrs.map (·.1)).Nodup

/-- The attributes as they are read. -/
def readAttrs (attrs : Attrs) : Attrs :=
  attrs.map fun a => (a.1, attrValue a.2)

variable {name : List Char}

theorem isName_cases (h : isName name) :
    ∃ c rest, name = c :: rest ∧ isNameStart c ∧ isChar c ∧
      ∀ d ∈ rest, isNameChar d ∧ isChar d := by
  cases name with
  | nil => cases h
  | cons c rest =>
    simp only [isName, head?_cons, Option.any_some, all_cons, Bool.and_eq_true, all_eq_true] at h
    exact ⟨c, rest, rfl, h.1, h.2.1.2, h.2.2⟩

theorem isNameChar_of_isName (h : isName name) : ∀ d ∈ name, isNameChar d ∧ isChar d := by
  simp only [isName, Bool.and_eq_true, all_eq_true] at h
  exact h.2

theorem not_mem_of_isName (h : isName name) (hc : isNameChar c = false) : c ∉ name := by
  intro hmem
  rw [(isNameChar_of_isName h c hmem).1] at hc
  cases hc

section
variable {fs : List Frame} {r : Option Content}

theorem run_startTag {name : List Char} (hname : isName name) (n : ℕ) :
    run ⟨.content n, fs, r⟩ ('<' :: name) = some ⟨.startTag { name } .name, fs, r⟩ := by
  obtain ⟨c, rest, rfl, hstart, hchar, hrest⟩ := isName_cases hname
  have hlt : step ⟨.content n, fs, r⟩ '<' = some ⟨.markup, fs, r⟩ := rfl
  have hslash : c ≠ '/' := by
    rintro rfl
    cases hstart
  have hbang : c ≠ '!' := by
    rintro rfl
    cases hstart
  have hc : step ⟨.markup, fs, r⟩ c = some ⟨.startTag { name := [c] } .name, fs, r⟩ := by
    simp [step, hchar, hslash, hbang, hstart]
  have hread : run ⟨.startTag { name := [c] } .name, fs, r⟩ rest =
      some ⟨.startTag { name := [c] ++ rest } .name, fs, r⟩ := by
    refine run_collect (fun read => .startTag { name := read } .name) (fun read d hd => ?_)
      hrest [c]
    simp [step, State.stepTag, hd.1, hd.2]
  rw [run_cons_of_eq hlt, run_cons_of_eq hc, hread]
  rfl

theorem run_endTag {name : List Char} (hname : isName name) (n : ℕ) :
    run ⟨.content n, fs, r⟩ ('<' :: '/' :: name) = some ⟨.endTag name false, fs, r⟩ := by
  have hlt : step ⟨.content n, fs, r⟩ '<' = some ⟨.markup, fs, r⟩ := rfl
  have hslash : step ⟨.markup, fs, r⟩ '/' = some ⟨.endTag [] false, fs, r⟩ := rfl
  have hread : run ⟨.endTag [] false, fs, r⟩ name = some ⟨.endTag name false, fs, r⟩ := by
    refine run_collect (fun read => .endTag read false) (fun read d hd => ?_)
      (isNameChar_of_isName hname) []
    simp [step, hd.1, hd.2]
  rw [run_cons_of_eq hlt, run_cons_of_eq hslash, hread]

variable {tag : Frame} {key v : List Char} {esc : Char → List Char}

theorem run_attrValue {s : List Char} (hs : ∀ c ∈ s, Writes (esc c) c) :
    run ⟨.startTag tag (.value key '"' v), fs, r⟩ (s.flatMap esc) =
      some ⟨.startTag tag (.value key '"' (v ++ attrValue s)), fs, r⟩ := by
  induction s generalizing v with
  | nil => simp [attrValue]
  | cons c s ih =>
    have hc : run ⟨.startTag tag (.value key '"' v), fs, r⟩ (esc c) =
        some ⟨.startTag tag (.value key '"' (v ++ attrValue [c])), fs, r⟩ := by
      have hwrites := hs c (mem_cons_self ..)
      generalize esc c = e at hwrites
      cases hwrites with
      | plain hchar hplain =>
        simp only [mem_cons, not_mem_nil, or_false, not_or] at hplain
        obtain ⟨hlt, hamp, -, hquote, -⟩ := hplain
        have hstep : step ⟨.startTag tag (.value key '"' v), fs, r⟩ c =
            some ⟨.startTag tag (.value key '"' (v ++ attrValue [c])), fs, r⟩ := by
          simp [step, State.stepTag, hchar, hlt, hamp, hquote, attrValue]
        rw [run_cons_of_eq hstep, run_nil]
      | reference ref hresolve href hspace =>
        have hamp : step ⟨.startTag tag (.value key '"' v), fs, r⟩ '&' =
            some ⟨.startTag tag (.reference key '"' v []), fs, r⟩ := rfl
        have hread : run ⟨.startTag tag (.reference key '"' v []), fs, r⟩ ref =
            some ⟨.startTag tag (.reference key '"' v ref), fs, r⟩ := by
          refine run_collect (fun read => .startTag tag (.reference key '"' v read))
            (fun read d hd => ?_) href []
          simp [step, State.stepTag, hd.1, hd.2.1]
        have hsemi : step ⟨.startTag tag (.reference key '"' v ref), fs, r⟩ ';' =
            some ⟨.startTag tag (.value key '"' (v ++ attrValue [c])), fs, r⟩ := by
          simp [step, State.stepTag, hresolve, hspace, attrValue, show isChar ';' = true from rfl]
        rw [run_cons_of_eq hamp, run_append_of_eq hread, run_cons_of_eq hsemi, run_nil]
    rw [flatMap_cons, run_append_of_eq hc, ih fun x hx => hs x (mem_cons_of_mem _ hx)]
    simp [attrValue]

/-- The two places of a tag an attribute may follow. -/
def AtBoundary (pos : TagPos) : Prop := pos = .name ∨ pos = .after

variable {pos : TagPos}

theorem step_boundary (hpos : AtBoundary pos) {c : Char} (hchar : isChar c)
    (hname : isNameChar c = false) :
    step ⟨.startTag tag pos, fs, r⟩ c = State.boundary ⟨.startTag tag pos, fs, r⟩ tag c := by
  rcases hpos with rfl | rfl
  · simp [step, State.stepTag, hchar, hname]
  · simp [step, State.stepTag, hchar]

theorem run_attr (hpos : AtBoundary pos) (hkey : isName key)
    (hnew : key ∉ tag.attrs.map (·.1)) (hv : ∀ c ∈ v, Writes (esc c) c) :
    run ⟨.startTag tag pos, fs, r⟩ (' ' :: (key ++ '=' :: '"' :: (v.flatMap esc ++ ['"']))) =
      some ⟨.startTag { tag with attrs := tag.attrs ++ [(key, attrValue v)] } .after, fs, r⟩ := by
  obtain ⟨c, rest, rfl, hstart, hchar, hrest⟩ := isName_cases hkey
  have hspace : step ⟨.startTag tag pos, fs, r⟩ ' ' = some ⟨.startTag tag .space, fs, r⟩ := by
    rw [step_boundary hpos rfl rfl]
    rfl
  have hc : step ⟨.startTag tag .space, fs, r⟩ c = some ⟨.startTag tag (.key [c]), fs, r⟩ := by
    simp [step, State.stepTag, hchar, hstart]
  have hread : run ⟨.startTag tag (.key [c]), fs, r⟩ rest =
      some ⟨.startTag tag (.key (c :: rest)), fs, r⟩ := by
    refine run_collect (fun read => .startTag tag (.key read)) (fun read d hd => ?_) hrest [c]
    simp [step, State.stepTag, hd.1, hd.2]
  have hequals : step ⟨.startTag tag (.key (c :: rest)), fs, r⟩ '=' =
      some ⟨.startTag tag (.quote (c :: rest)), fs, r⟩ := rfl
  have hopen : step ⟨.startTag tag (.quote (c :: rest)), fs, r⟩ '"' =
      some ⟨.startTag tag (.value (c :: rest) '"' []), fs, r⟩ := rfl
  have hclose : step ⟨.startTag tag (.value (c :: rest) '"' (attrValue v)), fs, r⟩ '"' =
      some ⟨.startTag { tag with attrs := tag.attrs ++ [(c :: rest, attrValue v)] } .after,
        fs, r⟩ := by
    have habsent : ∀ w, (c :: rest, w) ∉ tag.attrs := by simpa using hnew
    simp [step, State.stepTag, habsent, show isChar '"' = true from rfl]
  rw [run_cons_of_eq hspace, cons_append, run_cons_of_eq hc, run_append_of_eq hread,
    run_cons_of_eq hequals, run_cons_of_eq hopen, run_append_of_eq (run_attrValue hv),
    nil_append, run_cons_of_eq hclose, run_nil]

theorem run_attrs (fs : List Frame) (r : Option Content) {attrs : Attrs}
    (tag : Frame) (hpos : AtBoundary pos) (hattrs : WritesAttrs esc attrs)
    (hnew : ∀ a ∈ attrs, a.1 ∉ tag.attrs.map (·.1)) :
    ∃ pos', AtBoundary pos' ∧ run ⟨.startTag tag pos, fs, r⟩ (attrsText esc attrs) =
      some ⟨.startTag { tag with attrs := tag.attrs ++ readAttrs attrs } pos', fs, r⟩ := by
  induction attrs generalizing tag pos with
  | nil =>
    refine ⟨pos, hpos, ?_⟩
    simp [attrsText, readAttrs]
  | cons a attrs ih =>
    have hmem := mem_cons_self (a := a) (l := attrs)
    obtain ⟨hfirst, hnodup⟩ := nodup_cons.1 hattrs.nodup
    have hattr : run ⟨.startTag tag pos, fs, r⟩
        (' ' :: (a.1 ++ '=' :: '"' :: (a.2.flatMap esc ++ ['"']))) =
        some ⟨.startTag { tag with attrs := tag.attrs ++ [(a.1, attrValue a.2)] } .after, fs, r⟩ :=
      run_attr hpos (hattrs.keys a hmem) (hnew a hmem) (hattrs.values a hmem)
    have hrest : WritesAttrs esc attrs :=
      ⟨fun b hb => hattrs.keys b (mem_cons_of_mem _ hb),
        fun b hb => hattrs.values b (mem_cons_of_mem _ hb), hnodup⟩
    have hnew' : ∀ b ∈ attrs, b.1 ∉ (tag.attrs ++ [(a.1, attrValue a.2)]).map (·.1) := by
      intro b hb
      rw [map_append, mem_append, not_or]
      refine ⟨hnew b (mem_cons_of_mem _ hb), fun hsame => hfirst ?_⟩
      rw [← mem_singleton.1 hsame]
      exact mem_map_of_mem hb
    obtain ⟨pos', hpos', hrun⟩ :=
      ih { tag with attrs := tag.attrs ++ [(a.1, attrValue a.2)] } (.inr rfl) hrest hnew'
    refine ⟨pos', hpos', ?_⟩
    rw [attrsText, flatMap_cons, run_append_of_eq hattr]
    refine hrun.trans ?_
    simp [readAttrs]

end

/-! ## Elements -/

/-- An element with what is written inside it. -/
def elemText (esc : Char → List Char) (name : List Char) (attrs : Attrs)
    (inner : List Char) : List Char :=
  '<' :: (name ++ (attrsText esc attrs ++ '>' :: (inner ++ '<' :: '/' :: (name ++ ['>']))))

/-- An empty element. -/
def emptyText (esc : Char → List Char) (name : List Char)
    (attrs : Attrs) : List Char :=
  '<' :: (name ++ (attrsText esc attrs ++ ['/', '>']))

section
variable {esc : Char → List Char} {name : List Char} {attrs : Attrs}

theorem clean_attrsText (hattrs : WritesAttrs esc attrs) : '\r' ∉ attrsText esc attrs := by
  intro hmem
  obtain ⟨a, ha, hmem⟩ := mem_flatMap.1 hmem
  have hkey := not_mem_of_isName (hattrs.keys a ha) (c := '\r') rfl
  have hvalue : '\r' ∉ a.2.flatMap esc := by
    intro hmem
    obtain ⟨c, hc, hmem⟩ := mem_flatMap.1 hmem
    exact (hattrs.values a ha c hc).clean hmem
  simp [hkey, hvalue] at hmem

variable {fs : List Frame} {r : Option Content} {inner : List Char} {ns : List Content}

theorem run_open (hname : isName name) (hattrs : WritesAttrs esc attrs) (n : ℕ)
    (hroot : fs ≠ [] ∨ r = none) (s : List Char) :
    run ⟨.content n, fs, r⟩ ('<' :: (name ++ (attrsText esc attrs ++ '>' :: s))) =
      run ⟨.content 0, { name, attrs := readAttrs attrs } :: fs, r⟩ s := by
  obtain ⟨pos, hpos, hrun⟩ := run_attrs fs r { name } (.inl rfl) hattrs (fun a _ => not_mem_nil)
  have hgt : step ⟨.startTag { name, attrs := [] ++ readAttrs attrs } pos, fs, r⟩ '>' =
      some ⟨.content 0, { name, attrs := readAttrs attrs } :: fs, r⟩ := by
    rw [step_boundary hpos rfl rfl]
    rcases hroot with hfs | rfl
    · simp [State.boundary, State.opened, isSpace, hfs]
    · simp [State.boundary, State.opened, isSpace]
  rw [← cons_append, run_append_of_eq (run_startTag hname n), run_append_of_eq hrun,
    run_cons_of_eq hgt]

theorem run_close (hname : isName name) (n : ℕ) {f : Frame} (s : List Char) :
    run ⟨.content n, f :: fs, r⟩ ('<' :: '/' :: (name ++ '>' :: s)) =
      (State.closed ⟨.endTag name false, f :: fs, r⟩ name).bind fun σ => run σ s := by
  have hgt : step ⟨.endTag name false, f :: fs, r⟩ '>' =
      State.closed ⟨.endTag name false, f :: fs, r⟩ name := rfl
  have hsplit : '<' :: '/' :: (name ++ '>' :: s) = ('<' :: '/' :: name) ++ '>' :: s := rfl
  rw [hsplit, run_append_of_eq (run_endTag hname n), run_cons, hgt]

/-- **An element.** -/
theorem frag_elem (hname : isName name) (hattrs : WritesAttrs esc attrs)
    (hinner : Frag inner ns) :
    Frag (elemText esc name attrs inner) [.elem name (readAttrs attrs) ns] := by
  refine ⟨?_, fun n f fs r => ⟨0, ?_⟩⟩
  · have hclean := not_mem_of_isName hname (c := '\r') rfl
    simp [elemText, hclean, clean_attrsText hattrs, hinner.clean]
  obtain ⟨n', hn'⟩ := hinner.reads 0 { name, attrs := readAttrs attrs } (f :: fs) r
  rw [elemText, run_open hname hattrs n (.inl (cons_ne_nil _ _)), run_append_of_eq hn',
    run_close hname n']
  simp [State.closed, Frame.push, Frame.elem]

theorem frag_empty (hname : isName name) (hattrs : WritesAttrs esc attrs) :
    Frag (emptyText esc name attrs) [.elem name (readAttrs attrs) []] := by
  refine ⟨?_, fun n f fs r => ⟨0, ?_⟩⟩
  · have hclean := not_mem_of_isName hname (c := '\r') rfl
    simp [emptyText, hclean, clean_attrsText hattrs]
  obtain ⟨pos, hpos, hrun⟩ := run_attrs (f :: fs) r { name } (.inl rfl) hattrs
    (fun a _ => not_mem_nil)
  have hslash : step ⟨.startTag { name, attrs := [] ++ readAttrs attrs } pos, f :: fs, r⟩ '/' =
      some ⟨.startTag { name, attrs := [] ++ readAttrs attrs } .slash, f :: fs, r⟩ := by
    rw [step_boundary hpos rfl rfl]
    rfl
  have hgt : step ⟨.startTag { name, attrs := [] ++ readAttrs attrs } .slash, f :: fs, r⟩ '>' =
      some ⟨.content 0, f.push [.elem name (readAttrs attrs) []] :: fs, r⟩ := by
    simp [step, State.stepTag, State.opened, State.closed, Frame.elem,
      show isChar '>' = true from rfl]
  rw [emptyText, ← cons_append, run_append_of_eq (run_startTag hname n),
    run_append_of_eq hrun, run_cons_of_eq hslash, run_cons_of_eq hgt, run_nil]

/-! ## A whole document -/

theorem normalizeNewlines_of_clean {s : List Char} (h : '\r' ∉ s) : normalizeNewlines s = s := by
  induction s with
  | nil => rfl
  | cons c s ih =>
    obtain ⟨hc, hs⟩ := not_or.1 (mt mem_cons.2 h)
    rw [normalizeNewlines, ih hs]
    · rintro t rfl rfl
      exact hc rfl
    · rintro rfl
      exact hc rfl

/-- What the writers put before the root. -/
def header : List Char := "<?xml version=\"1.0\" encoding=\"utf-8\"?>\n".toList

/-- **A document with one root is read as that root.** -/
theorem parse_document (hname : isName name) (hattrs : WritesAttrs esc attrs)
    (hinner : Frag inner ns) :
    parse (encode (header ++ (elemText esc name attrs inner ++ ['\n']))) =
      some (.elem name (readAttrs attrs) ns) := by
  have hclean : '\r' ∉ header ++ (elemText esc name attrs inner ++ ['\n']) := by
    rw [mem_append, mem_append, not_or, not_or]
    exact ⟨by decide, (frag_elem hname hattrs hinner).clean, by decide⟩
  have hdecode : decode (encode (header ++ (elemText esc name attrs inner ++ ['\n']))) =
      some (header ++ (elemText esc name attrs inner ++ ['\n'])) := by
    rw [decode, runes_encode, if_pos rfl]
  have hdecl : afterDecl (header ++ (elemText esc name attrs inner ++ ['\n'])) =
      some ('\n' :: (elemText esc name attrs inner ++ ['\n'])) := rfl
  have hnewline : step {} '\n' = some {} := rfl
  obtain ⟨n', hn'⟩ := hinner.reads 0 { name, attrs := readAttrs attrs } [] none
  have hrun : run {} (elemText esc name attrs inner ++ ['\n']) =
      some ⟨.content 0, [], some (.elem name (readAttrs attrs) ns)⟩ := by
    have hsplit : elemText esc name attrs inner ++ ['\n'] =
        '<' :: (name ++ (attrsText esc attrs ++ '>' ::
          (inner ++ '<' :: '/' :: (name ++ '>' :: ['\n'])))) := by
      simp [elemText]
    rw [hsplit, run_open hname hattrs 0 (.inr rfl), run_append_of_eq hn', run_close hname n']
    simp [State.closed, Frame.push, Frame.elem, run_cons, step, State.stepContent, isSpace,
      show isChar '\n' = true from rfl]
  simp [parse, hdecode, normalizeNewlines_of_clean hclean, hdecl, run_cons_of_eq hnewline, hrun]

end

end AnimeFeedFlux.Xml
