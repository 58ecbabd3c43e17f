import MessagesApp.Lib.Pattern

/-!
# `renderMarkdown`

The page of a chatbot turns the text of a message into HTML (chat_template.html 44–69): the text is
escaped, the fenced blocks are taken out and numbered placeholders left for them, five rules write
the markup, and the blocks are put back with `String.replace`, which replaces the first occurrence
of the placeholder and reads `$` patterns in what it puts in.

Each regular expression is a `Lib.Pattern`, with the choices of the backtracking matcher written
out: a lazy group ends at the first place where the rest matches, a greedy one of a class that the
rest cannot begin with at the last letter of the class. `replaceAll` goes on behind each match.

The rules are stated for any symbols among which there are letters (`Writing`), so that they can be
applied to a text in which a block or a tag is one symbol. What they do to the symbols they do to
the text (`rules_expand`): where a symbol stands for a word that no pattern begins in or runs into
(`Neutral`), a match in the text is one in the symbols. `CodeBlocks` uses that for symbols for the
blocks, and `Html` for symbols for the tags.

A text is a list of characters. JavaScript counts UTF-16 units, but none of the patterns can tell
the two halves of a pair from letters that it does not name.
-/

set_option autoImplicit false

namespace MessagesApp.Markdown

open Lib

/-! ## `escapeHtml` -/

/-- `s.replace(/c/g, w)`. -/
def replaceChar (c : Char) (w : String) (s : List Char) : List Char :=
  s.flatMap fun x => if x = c then w.toList else [x]

/-- `escapeHtml` (44–49): the ampersand first, so that the references of the others stay. -/
def escapeHtml (s : List Char) : List Char :=
  replaceChar '\'' "&#39;" (replaceChar '"' "&quot;"
    (replaceChar '>' "&gt;" (replaceChar '<' "&lt;" (replaceChar '&' "&amp;" s))))

/-! ## Patterns -/

/-- `\s`, and what `trim` takes away. -/
def isSpace (c : Char) : Bool :=
  c ∈ ['\t', '\n', '\u000b', '\u000c', '\r', ' ', '\u00a0', '\u1680', '\u2028', '\u2029', '\u202f',
    '\u205f', '\u3000', '\ufeff'] || ('\u2000' ≤ c && c ≤ '\u200a')

/-- `.` -/
def dot (c : Char) : Bool := c ∉ ['\n', '\r', '\u2028', '\u2029']

variable {α : Type}

/-- A class of letters; every other symbol belongs to it, as the word of a tag or of a placeholder
does. -/
def allow (A : Alphabet α Char) (ok : Char → Bool) (a : α) : Bool :=
  match A.char? a with
  | some c => ok c
  | none => true

/-- `mark([^…]+?)mark`. The group has one symbol at least, which may be one that begins the mark. -/
def emphasis (A : Alphabet α Char) (mark : List Char) (hmark : mark ≠ []) (ok : Char → Bool) :
    Pattern α (List α) where
  find s := (skip A.char? mark s).bind fun s =>
    (lazily1 (allow A ok) (skip A.char? mark) s).map Prod.fst
  text x := mark.map A.lit ++ x ++ mark.map A.lit
  text_starts := by
    intro s x h
    obtain ⟨t, ht, h⟩ := Option.bind_eq_some_iff.mp h
    obtain ⟨⟨y, rest⟩, hy, rfl⟩ := Option.map_eq_some_iff.mp h
    obtain ⟨-, t', rfl, hrest⟩ := lazily1_spec hy
    rw [(skip_eq_some A).mp ht, (skip_eq_some A).mp hrest]
    exact ⟨rest, by simp⟩
  text_ne_nil x := by simp [hmark]

/-- `/```([\s\S]*?)```/`, with what is between. A fence that is not closed is none. -/
def fence (A : Alphabet α Char) : Pattern α (List α) where
  find s := (skip A.char? "```".toList s).bind fun s =>
    (lazily (fun _ => true) (skip A.char? "```".toList) s).map Prod.fst
  text x := "```".toList.map A.lit ++ x ++ "```".toList.map A.lit
  text_starts := by
    intro s x h
    obtain ⟨t, ht, h⟩ := Option.bind_eq_some_iff.mp h
    obtain ⟨⟨y, rest⟩, hy, rfl⟩ := Option.map_eq_some_iff.mp h
    obtain ⟨-, t', rfl, hrest⟩ := lazily_spec hy
    rw [(skip_eq_some A).mp ht, (skip_eq_some A).mp hrest]
    exact ⟨rest, by simp⟩
  text_ne_nil x := by simp

/-- `https?:\/\/` -/
def scheme (A : Alphabet α Char) (s : List α) : Option (List Char × List α) :=
  match skip A.char? "https://".toList s with
  | some t => some ("https://".toList, t)
  | none => (skip A.char? "http://".toList s).map fun t => ("http://".toList, t)

/-- `\]\((https?:\/\/[^\s)]+)\)`, with the address. -/
def linkEnd (A : Alphabet α Char) (s : List α) : Option (List α) :=
  (skip A.char? "](".toList s).bind fun s =>
    (scheme A s).bind fun x =>
      (greedily1 (allow A fun c => !isSpace c && c ≠ ')') x.2).bind fun y =>
        (skip A.char? ")".toList y.2).map fun _ => x.1.map A.lit ++ y.1

theorem scheme_spec {A : Alphabet α Char} {s : List α} {x : List Char × List α}
    (h : scheme A s = some x) :
    (x.1 = "https://".toList ∨ x.1 = "http://".toList) ∧ s = x.1.map A.lit ++ x.2 := by
  unfold scheme at h
  split at h
  · rename_i t ht
    cases h
    exact ⟨Or.inl rfl, (skip_eq_some A).mp ht⟩
  · obtain ⟨t, ht, rfl⟩ := Option.map_eq_some_iff.mp h
    exact ⟨Or.inr rfl, (skip_eq_some A).mp ht⟩

/-- An address has its scheme, and then no blanks and no `)`. -/
theorem linkEnd_spec {A : Alphabet α Char} {s u : List α} (h : linkEnd A s = some u) :
    (∃ t, s = "](".toList.map A.lit ++ u ++ ")".toList.map A.lit ++ t) ∧
      ∃ sch run, u = List.map A.lit sch ++ run ∧
        (sch = "https://".toList ∨ sch = "http://".toList) ∧
        ∀ a ∈ run, allow A (fun c => !isSpace c && c ≠ ')') a = true := by
  obtain ⟨s₁, h₁, h⟩ := Option.bind_eq_some_iff.mp h
  obtain ⟨x, hx, h⟩ := Option.bind_eq_some_iff.mp h
  obtain ⟨y, hy, h⟩ := Option.bind_eq_some_iff.mp h
  obtain ⟨t, ht, rfl⟩ := Option.map_eq_some_iff.mp h
  obtain ⟨hsch, hs⟩ := scheme_spec hx
  obtain ⟨hrun, hxy⟩ := greedily1_spec (x := y.1) (t := y.2) hy
  refine ⟨⟨t, ?_⟩, x.1, y.1, rfl, hsch, hrun⟩
  rw [(skip_eq_some A).mp h₁, hs, hxy, (skip_eq_some A).mp ht]
  simp

/-- `/\[(.+?)\]\((https?:\/\/[^\s)]+)\)/`, with the text and the address. The text goes on over `]`
until an address follows. -/
def linkPattern (A : Alphabet α Char) : Pattern α (List α × List α) where
  find s := (skip A.char? "[".toList s).bind fun s => lazily1 (allow A dot) (linkEnd A) s
  text x := "[".toList.map A.lit ++ x.1 ++ "](".toList.map A.lit ++ x.2 ++ ")".toList.map A.lit
  text_starts := by
    rintro s ⟨x, u⟩ h
    obtain ⟨t, ht, h⟩ := Option.bind_eq_some_iff.mp h
    obtain ⟨-, t', rfl, hu⟩ := lazily1_spec h
    obtain ⟨⟨rest, rfl⟩, -⟩ := linkEnd_spec hu
    rw [(skip_eq_some A).mp ht]
    exact ⟨rest, by simp⟩
  text_ne_nil x := by simp

/-- `/\n/` -/
def newline (A : Alphabet α Char) : Pattern α Unit where
  find s := (skip A.char? "\n".toList s).map fun _ => ()
  text _ := "\n".toList.map A.lit
  text_starts := by
    intro s x h
    obtain ⟨t, ht, -⟩ := Option.map_eq_some_iff.mp h
    exact ⟨t, ((skip_eq_some A).mp ht).symm⟩
  text_ne_nil _ := by simp

/-! ## The rules -/

/-- The tags that the rules write, but for the one with an address. -/
inductive Markup
  | strong
  | strongEnd
  | em
  | emEnd
  | code
  | codeEnd
  | br
  | aEnd
deriving DecidableEq

def Markup.text : Markup → String
  | .strong => "<strong>"
  | .strongEnd => "</strong>"
  | .em => "<em>"
  | .emEnd => "</em>"
  | .code => "<code>"
  | .codeEnd => "</code>"
  | .br => "<br>"
  | .aEnd => "</a>"

def linkStart : List Char := "<a href=\"".toList

def linkRest : List Char := "\" target=\"_blank\" rel=\"noopener noreferrer\">".toList

/-- Symbols, and how markup is written in them; `link` is the tag of an address. -/
structure Writing (α : Type) extends Alphabet α Char where
  mark : Markup → List α
  link : List α → List α

/-- The text itself, in which every symbol is a letter and markup is its letters. -/
def plain : Writing Char where
  toAlphabet := letters Char
  mark m := m.text.toList
  link u := linkStart ++ u ++ linkRest

def strong (W : Writing α) : List α → List α :=
  (emphasis W.toAlphabet "**".toList (by simp) dot).replaceAll
    fun x => W.mark .strong ++ x ++ W.mark .strongEnd

def em (W : Writing α) : List α → List α :=
  (emphasis W.toAlphabet "*".toList (by simp) dot).replaceAll
    fun x => W.mark .em ++ x ++ W.mark .emEnd

def code (W : Writing α) : List α → List α :=
  (emphasis W.toAlphabet "`".toList (by simp) fun c => c ≠ '`').replaceAll
    fun x => W.mark .code ++ x ++ W.mark .codeEnd

def links (W : Writing α) : List α → List α :=
  (linkPattern W.toAlphabet).replaceAll fun x => W.link x.2 ++ x.1 ++ W.mark .aEnd

def breaks (W : Writing α) : List α → List α :=
  (newline W.toAlphabet).replaceAll fun _ => W.mark .br

/-- The five rules in the order of the page (60–64). A later rule sees what the earlier ones
wrote. -/
def rules (W : Writing α) (s : List α) : List α := breaks W (links W (code W (em W (strong W s))))

/-! ## Blocks -/

def trim (s : List Char) : List Char :=
  ((s.dropWhile isSpace).reverse.dropWhile isSpace).reverse

def codeBlock (code : List Char) : List Char :=
  "<pre><code>".toList ++ trim code ++ "</code></pre>".toList

def token (n : Nat) : List Char := "__CODEBLOCK_".toList ++ (toString n).toList ++ "__".toList

/-- The text with the placeholders, of which there were `n` before, and the blocks. The contents of
a block are trimmed; the rules never see them. -/
def takeOut (n : Nat) : List (Char ⊕ List Char) → List Char × List (List Char)
  | [] => ([], [])
  | .inl c :: l =>
      let (safe, codeBlocks) := takeOut n l
      (c :: safe, codeBlocks)
  | .inr code :: l =>
      let (safe, codeBlocks) := takeOut (n + 1) l
      (token n ++ safe, codeBlock code :: codeBlocks)

/-- What a replacement string is made of. -/
inductive Part
  | char (c : Char)
  | matched
  | before
  | after
deriving DecidableEq

/-- There are no groups, so every other `$` stands for itself. -/
def parts : List Char → List Part
  | '$' :: '$' :: r => .char '$' :: parts r
  | '$' :: '&' :: r => .matched :: parts r
  | '$' :: '`' :: r => .before :: parts r
  | '$' :: '\'' :: r => .after :: parts r
  | c :: r => .char c :: parts r
  | [] => []

def Part.text (matched before after : List Char) : Part → List Char
  | .char c => [c]
  | .matched => matched
  | .before => before
  | .after => after

/-- What `replace` writes for a replacement string, with what it matched, and what is before and
after that. -/
def substitute (matched before after r : List Char) : List Char :=
  (parts r).flatMap (Part.text matched before after)

/-- The text before the first occurrence of `w`, and after it. -/
def splitFirst (w : List Char) : List Char → Option (List Char × List Char)
  | [] => if w = [] then some ([], []) else none
  | c :: s => match skip some w (c :: s) with
      | some after => some ([], after)
      | none => (splitFirst w s).map fun x => (c :: x.1, x.2)

/-- `s.replace(w, r)` of two texts: the first occurrence, and `s` itself where there is none. -/
def replaceFirst (w r s : List Char) : List Char :=
  match splitFirst w s with
  | some (before, after) => before ++ substitute w before after r ++ after
  | none => s

/-- The loop over the blocks, from the `n`th on. Each step searches the text that the step before
has made, blocks and all. -/
def putBack (n : Nat) : List (List Char) → List Char → List Char
  | [], safe => safe
  | block :: blocks, safe => putBack (n + 1) blocks (replaceFirst (token n) block safe)

/-- `renderMarkdown` (51–69). -/
def renderMarkdown (md : List Char) : List Char :=
  let (safe, codeBlocks) := takeOut 0 ((fence (letters Char)).scan (escapeHtml md))
  putBack 0 codeBlocks (rules plain safe)

/-! ## Symbols for words -/

/-- A letter that the patterns of the rules do not tell from others. -/
def neutral (c : Char) : Bool := !isSpace c && c ∉ ['*', '`', '[', ']', '(', ')']

/-- A word that the rules take as a whole: none of its letters is in a mark, and it begins with a
letter that no mark has. -/
structure Neutral (w : List Char) : Prop where
  letters : ∀ c ∈ w, neutral c = true
  front : w.head? = some '<' ∨ w.head? = some '_'

/-- A letter, or a neutral word. -/
def Quiet (W : Writing α) (e : α → List Char) (a : α) : Prop :=
  (∃ c, a = W.lit c) ∨ Neutral (e a)

/-- A letter, or a word on one line. -/
def OnOneLine (W : Writing α) (e : α → List Char) (a : α) : Prop :=
  (∃ c, a = W.lit c) ∨ e a ≠ [] ∧ '\n' ∉ e a

/-- The symbols of a writing stand for the markup, and for themselves if they are letters. What it
takes for the rules to do the same to both. -/
structure Stands (W : Writing α) (e : α → List Char) : Prop where
  lit : ∀ c, e (W.lit c) = [c]
  mark : ∀ m, (W.mark m).flatMap e = m.text.toList
  quiet : ∀ m, ∀ a ∈ W.mark m, Quiet W e a
  link : ∀ u, (W.link u).flatMap e = linkStart ++ u.flatMap e ++ linkRest
  onOneLine : ∀ u, '\n' ∉ u.flatMap e → ∀ a ∈ W.link u, OnOneLine W e a

variable {W : Writing α} {e : α → List Char}

theorem neutral_of_all {w : List Char} (h : w.all neutral = true)
    (hfront : w.head? = some '<' ∨ w.head? = some '_') : Neutral w :=
  ⟨List.all_eq_true.mp h, hfront⟩

theorem Neutral.ne_nil {w : List Char} (h : Neutral w) : w ≠ [] := by
  rintro rfl
  rcases h.front with h | h <;> cases h

/-- No word of a pattern begins in a neutral word, or runs into one. -/
theorem Neutral.foreign {cs w : List Char} (h : Neutral w)
    (hhead : cs.head?.any neutral = false) (hlt : '<' ∉ cs) (hlow : '_' ∉ cs) :
    Foreign cs w where
  nonempty := h.ne_nil
  within := by
    intro c hc hcs
    rw [hcs, Option.any_some, h.letters c hc] at hhead
    cases hhead
  front := by
    intro c hc
    rcases h.front with h | h
    · rw [hc] at h
      cases h
      exact hlt
    · rw [hc] at h
      cases h
      exact hlow

theorem expands_skip (hW : Stands W e) (cs : List Char) (hcs : cs ≠ [])
    (hhead : cs.head?.any neutral = false) (hlt : '<' ∉ cs) (hlow : '_' ∉ cs) :
    Expands (Quiet W e) e (List.flatMap e) (skip W.char? cs) (skip some cs) := by
  refine Expands.skip W.toAlphabet hcs (fun c _ => hW.lit c) fun a ha hother => ?_
  rcases ha with ⟨c, rfl⟩ | ha
  · have hc : c ∉ cs := fun hc => hother c hc rfl
    rw [hW.lit]
    refine ⟨by simp, ?_, ?_⟩
    · intro d hd hcs
      rw [List.mem_singleton.mp hd] at hcs
      exact hc (List.mem_of_mem_head? hcs)
    · intro d hd
      cases hd
      exact hc
  · exact ha.foreign hhead hlt hlow

/-- What allows the neutral letters allows the neutral words. -/
theorem allows_allow (hW : Stands W e) {ok : Char → Bool} (hok : ∀ c, neutral c = true → ok c = true) :
    Allows (Quiet W e) e (allow W.toAlphabet ok) (allow plain.toAlphabet ok) := by
  have hplain : ∀ c, allow plain.toAlphabet ok c = ok c := fun c => rfl
  intro a ha
  cases hc : W.char? a with
  | some c =>
    have hallow : allow W.toAlphabet ok a = ok c := by
      unfold allow
      rw [hc]
    rw [hallow, W.char?_eq.mp hc, hW.lit]
    refine ⟨by simp, ?_⟩
    cases h : ok c with
    | true => exact Or.inl ⟨rfl, fun d hd => by rw [List.mem_singleton.mp hd, hplain, h]⟩
    | false => exact Or.inr ⟨rfl, c, rfl, h⟩
  | none =>
    have hallow : allow W.toAlphabet ok a = true := by
      unfold allow
      rw [hc]
    rcases ha with ⟨c, rfl⟩ | ha
    · rw [W.char?_eq.mpr rfl] at hc
      cases hc
    · refine ⟨ha.ne_nil, Or.inl ⟨hallow, fun c hc => ?_⟩⟩
      rw [hplain]
      exact hok c (ha.letters c hc)

theorem flatMap_lit (hW : Stands W e) (cs : List Char) : (cs.map W.lit).flatMap e = cs := by
  rw [List.flatMap_map]
  have hlit : ∀ c, e (W.lit c) = [c] := hW.lit
  simp [hlit]

theorem dot_of_neutral (c : Char) (h : neutral c = true) : dot c = true := by
  unfold neutral at h
  unfold dot
  have hspace : isSpace c = false := by
    cases hs : isSpace c with
    | false => rfl
    | true =>
      rw [hs] at h
      cases h
  refine decide_eq_true fun hc => ?_
  have hall := List.all_eq_true.mp
    (show ['\n', '\r', '\u2028', '\u2029'].all isSpace = true by decide)
  rw [hall c hc] at hspace
  cases hspace

theorem code_of_neutral (c : Char) (h : neutral c = true) : decide (c ≠ '`') = true := by
  refine decide_eq_true ?_
  rintro rfl
  exact absurd h (by decide)

/-! ## Emphasis in words -/

theorem quiet_rest {s t : List α} {cs : List Char} (hs : ∀ a ∈ s, Quiet W e a)
    (h : skip W.char? cs s = some t) : ∀ a ∈ t, Quiet W e a := by
  intro a ha
  refine hs a ?_
  rw [(skip_eq_some W.toAlphabet).mp h]
  exact List.mem_append_right _ ha

theorem emphasis_expands (hW : Stands W e) {mark : List Char} (hmark : mark ≠ [])
    (hhead : mark.head?.any neutral = false) (hlt : '<' ∉ mark) (hlow : '_' ∉ mark)
    {ok : Char → Bool} (hok : ∀ c, neutral c = true → ok c = true) :
    Expands (Quiet W e) e (List.flatMap e) (emphasis W.toAlphabet mark hmark ok).find
      (emphasis plain.toAlphabet mark hmark ok).find where
  agrees := by
    intro s hs
    have hskip := expands_skip hW mark hmark hhead hlt hlow
    show ((skip some mark (s.flatMap e)).bind fun s => _) = ((skip W.char? mark s).bind fun s => _).map _
    rw [hskip.agrees s hs]
    cases h : skip W.char? mark s with
    | none => rfl
    | some t =>
      show (lazily1 _ (skip some mark) (t.flatMap e)).map _ = ((lazily1 _ _ t).map _).map _
      rw [lazily1_agrees hskip (allows_allow hW hok) (quiet_rest hs h), Option.map_map,
        Option.map_map]
      rfl
  inner := by
    intro a s ha hs w hw hne hproper
    have hnone := (expands_skip hW mark hmark hhead hlt hlow).inner a s ha hs w hw hne hproper
    show ((skip some mark (w ++ s.flatMap e)).bind fun s => _) = none
    rw [hnone]
    rfl

/-- To emphasize symbols is to emphasize their words. -/
theorem emphasis_expand (hW : Stands W e) {mark : List Char} (hmark : mark ≠ [])
    (hhead : mark.head?.any neutral = false) (hlt : '<' ∉ mark) (hlow : '_' ∉ mark)
    {ok : Char → Bool} (hok : ∀ c, neutral c = true → ok c = true) (m m' : Markup) {s : List α}
    (hs : ∀ a ∈ s, Quiet W e a) :
    ((emphasis W.toAlphabet mark hmark ok).replaceAll
        (fun x => W.mark m ++ x ++ W.mark m') s).flatMap e =
      (emphasis plain.toAlphabet mark hmark ok).replaceAll
        (fun x => plain.mark m ++ x ++ plain.mark m') (s.flatMap e) := by
  refine Pattern.replaceAll_expand (emphasis_expands hW hmark hhead hlt hlow hok) (fun x => ?_)
    (fun x => ?_) hs
  · show mark.map id ++ x.flatMap e ++ mark.map id = _
    simp only [emphasis, List.flatMap_append, flatMap_lit hW, List.map_id]
  · simp only [List.flatMap_append, hW.mark]
    rfl

/-- What is there after emphasis was there, or is a mark. -/
theorem mem_emphasis {mark : List Char} {hmark : mark ≠ []} {ok : Char → Bool} {m m' : Markup}
    {s : List α} {a : α} (h : a ∈ (emphasis W.toAlphabet mark hmark ok).replaceAll
      (fun x => W.mark m ++ x ++ W.mark m') s) : a ∈ s ∨ ∃ m, a ∈ W.mark m := by
  rcases Pattern.mem_replaceAll h with h | ⟨x, hx, h⟩
  · exact Or.inl h
  · simp only [List.mem_append] at h
    rcases h with (h | h) | h
    · exact Or.inr ⟨m, h⟩
    · refine Or.inl (Pattern.text_subset hx ?_)
      exact List.mem_append_left _ (List.mem_append_right _ h)
    · exact Or.inr ⟨m', h⟩

/-! ## Links in words -/

theorem scheme_agrees (hW : Stands W e) {s : List α} (hs : ∀ a ∈ s, Quiet W e a) :
    scheme plain.toAlphabet (s.flatMap e) =
      (scheme W.toAlphabet s).map fun x => (x.1, x.2.flatMap e) := by
  have hskip : ∀ cs : List Char, '<' ∉ cs → '_' ∉ cs →
      skip plain.char? cs (s.flatMap e) = (skip W.char? cs s).map (List.flatMap e) := by
    intro cs hlt hlow
    refine skip_agrees W.toAlphabet (fun c _ => hW.lit c) (fun a ha hother => ?_) hs
    rcases ha with ⟨c, rfl⟩ | ha
    · rw [hW.lit]
      refine ⟨by simp, fun d hd => ?_⟩
      cases hd
      exact fun hc => hother c hc rfl
    · refine ⟨ha.ne_nil, fun c hc => ?_⟩
      rcases ha.front with h | h
      · rw [hc] at h
        cases h
        exact hlt
      · rw [hc] at h
        cases h
        exact hlow
  unfold scheme
  rw [hskip _ (by decide) (by decide), hskip _ (by decide) (by decide)]
  cases skip W.char? "https://".toList s with
  | some t => rfl
  | none => cases skip W.char? "http://".toList s <;> rfl

theorem linkEnd_expands (hW : Stands W e) :
    Expands (Quiet W e) e (List.flatMap e) (linkEnd W.toAlphabet) (linkEnd plain.toAlphabet) where
  agrees := by
    intro s hs
    have hopen := (expands_skip hW "](".toList (by decide) (by decide) (by decide)
      (by decide)).agrees s hs
    have hallow : Allows (Quiet W e) e (allow W.toAlphabet fun c => !isSpace c && c ≠ ')')
        (allow plain.toAlphabet fun c => !isSpace c && c ≠ ')') := allows_allow hW fun c hc => by
      simp only [neutral, Bool.and_eq_true, decide_eq_true_eq] at hc ⊢
      exact ⟨hc.1, fun h => hc.2 (by simp [h])⟩
    unfold linkEnd
    show ((skip some "](".toList (s.flatMap e)).bind fun s => _) = _
    rw [hopen]
    cases h₁ : skip W.char? "](".toList s with
    | none => rfl
    | some t =>
      have ht := quiet_rest hs h₁
      simp only [Option.map_some, Option.bind_some]
      rw [scheme_agrees hW ht]
      cases h₂ : scheme W.toAlphabet t with
      | none => rfl
      | some x =>
        have hx : ∀ a ∈ x.2, Quiet W e a := fun a ha => ht a (by
          rw [(scheme_spec h₂).2]
          exact List.mem_append_right _ ha)
        simp only [Option.map_some, Option.bind_some]
        rw [greedily1_agrees hallow hx]
        cases h₃ : greedily1 (allow W.toAlphabet fun c => !isSpace c && c ≠ ')') x.2 with
        | none => rfl
        | some y =>
          have hy : ∀ a ∈ y.2, Quiet W e a := fun a ha => hx a (by
            rw [(greedily1_spec (x := y.1) (t := y.2) h₃).2]
            exact List.mem_append_right _ ha)
          have hclose := (expands_skip hW ")".toList (by decide) (by decide) (by decide)
            (by decide)).agrees y.2 hy
          simp only [Option.map_some, Option.bind_some]
          show ((skip some ")".toList (y.2.flatMap e)).map fun _ => _) = _
          rw [hclose, Option.map_map, Option.map_map]
          refine Option.map_congr fun _ _ => ?_
          show x.1.map id ++ y.1.flatMap e = (x.1.map W.lit ++ y.1).flatMap e
          rw [List.flatMap_append, flatMap_lit hW, List.map_id]
  inner := by
    intro a s ha hs w hw hne hproper
    have hnone := (expands_skip hW "](".toList (by decide) (by decide) (by decide)
      (by decide)).inner a s ha hs w hw hne hproper
    show ((skip some "](".toList (w ++ s.flatMap e)).bind fun s => _) = none
    rw [hnone]
    rfl

theorem linkPattern_expands (hW : Stands W e) :
    Expands (Quiet W e) e (fun x => (x.1.flatMap e, x.2.flatMap e)) (linkPattern W.toAlphabet).find
      (linkPattern plain.toAlphabet).find where
  agrees := by
    intro s hs
    have hopen := (expands_skip hW "[".toList (by decide) (by decide) (by decide)
      (by decide)).agrees s hs
    have hallow := allows_allow hW dot_of_neutral
    show ((skip some "[".toList (s.flatMap e)).bind fun s => _) =
      ((skip W.char? "[".toList s).bind fun s => _).map _
    rw [hopen]
    cases h : skip W.char? "[".toList s with
    | none => rfl
    | some t => exact lazily1_agrees (linkEnd_expands hW) hallow (quiet_rest hs h)
  inner := by
    intro a s ha hs w hw hne hproper
    have hnone := (expands_skip hW "[".toList (by decide) (by decide) (by decide)
      (by decide)).inner a s ha hs w hw hne hproper
    show ((skip some "[".toList (w ++ s.flatMap e)).bind fun s => _) = none
    rw [hnone]
    rfl

theorem links_expand (hW : Stands W e) {s : List α} (hs : ∀ a ∈ s, Quiet W e a) :
    (links W s).flatMap e = links plain (s.flatMap e) := by
  refine Pattern.replaceAll_expand (linkPattern_expands hW) (fun x => ?_) (fun x => ?_) hs
  · show "[".toList.map id ++ x.1.flatMap e ++ "](".toList.map id ++ x.2.flatMap e ++
      ")".toList.map id = _
    simp only [linkPattern, List.flatMap_append, flatMap_lit hW, List.map_id]
  · simp only [List.flatMap_append, hW.mark, hW.link]
    rfl

/-- What an address is. -/
structure Address (W : Writing α) (s u : List α) : Prop where
  symbols : u ⊆ s
  written : ∃ sch run, u = List.map W.lit sch ++ run ∧
    (sch = "https://".toList ∨ sch = "http://".toList) ∧
    ∀ a ∈ run, allow W.toAlphabet (fun c => !isSpace c && c ≠ ')') a = true

theorem address_of_scan {s : List α} {x : List α × List α}
    (hx : .inr x ∈ (linkPattern W.toAlphabet).scan s) : Address W s x.2 := by
  obtain ⟨t, ht⟩ := Pattern.find_of_mem_scan hx
  obtain ⟨t', -, ht⟩ := Option.bind_eq_some_iff.mp ht
  obtain ⟨-, t'', -, hend⟩ := lazily1_spec (x := x.1) (b := x.2) ht
  obtain ⟨-, hwritten⟩ := linkEnd_spec hend
  refine ⟨fun a ha => Pattern.text_subset hx ?_, hwritten⟩
  exact List.mem_append_left _ (List.mem_append_right _ ha)

/-- An address is on one line. -/
theorem Address.newline_notMem (hW : Stands W e) {s u : List α} (hs : ∀ a ∈ s, Quiet W e a)
    (h : Address W s u) : '\n' ∉ u.flatMap e := by
  obtain ⟨sch, run, rfl, hsch, hrun⟩ := h.written
  rw [List.flatMap_append, flatMap_lit hW, List.mem_append]
  rintro (hc | hc)
  · rcases hsch with rfl | rfl <;> exact absurd hc (by decide)
  · obtain ⟨a, ha, hc⟩ := List.mem_flatMap.mp hc
    have hallow := hrun a ha
    rcases hs a (h.symbols (List.mem_append_right _ ha)) with ⟨c, rfl⟩ | hq
    · rw [hW.lit, List.mem_singleton] at hc
      subst hc
      rw [allow, W.char?_eq.mpr rfl] at hallow
      exact absurd hallow (by decide)
    · exact absurd (hq.letters _ hc) (by decide)

/-- What is there after the links was there, or is of a tag. -/
theorem mem_links {s : List α} {a : α} (h : a ∈ links W s) :
    a ∈ s ∨ (∃ u, Address W s u ∧ a ∈ W.link u) ∨ a ∈ W.mark .aEnd := by
  rcases Pattern.mem_replaceAll h with h | ⟨x, hx, h⟩
  · exact Or.inl h
  · simp only [List.mem_append] at h
    rcases h with (h | h) | h
    · exact Or.inr (Or.inl ⟨x.2, address_of_scan hx, h⟩)
    · refine Or.inl (Pattern.text_subset hx ?_)
      exact List.mem_append_left _ (List.mem_append_left _ (List.mem_append_left _
        (List.mem_append_right _ h)))
    · exact Or.inr (Or.inr h)

/-! ## All rules in words -/

theorem breaks_expand (hW : Stands W e) {s : List α} (hs : ∀ a ∈ s, OnOneLine W e a) :
    (breaks W s).flatMap e = breaks plain (s.flatMap e) := by
  have hskip : Expands (OnOneLine W e) e (List.flatMap e) (skip W.char? "\n".toList)
      (skip some "\n".toList) := by
    refine Expands.skip W.toAlphabet (by decide) (fun c _ => hW.lit c) fun a ha hother => ?_
    have hword : e a ≠ [] ∧ '\n' ∉ e a := by
      rcases ha with ⟨c, rfl⟩ | ha
      · rw [hW.lit]
        refine ⟨by simp, fun h => ?_⟩
        rw [← List.mem_singleton.mp h] at hother
        exact hother '\n' (by decide) rfl
      · exact ha
    refine ⟨hword.1, ?_, ?_⟩
    · intro c hc hcs
      cases hcs
      exact hword.2 hc
    · intro c hc hcs
      rw [show c = '\n' by simpa using hcs] at hc
      exact hword.2 (List.mem_of_mem_head? hc)
  have hexpands : Expands (OnOneLine W e) e id (newline W.toAlphabet).find
      (newline plain.toAlphabet).find := by
    refine ⟨fun s hs => ?_, fun a s ha hs w hw hne hproper => ?_⟩
    · show (skip some "\n".toList (s.flatMap e)).map _ = ((skip W.char? "\n".toList s).map _).map _
      rw [hskip.agrees s hs, Option.map_map, Option.map_map]
      rfl
    · show (skip some "\n".toList (w ++ s.flatMap e)).map _ = none
      rw [hskip.inner a s ha hs w hw hne hproper]
      rfl
  refine Pattern.replaceAll_expand hexpands (fun x => ?_) (fun x => hW.mark .br) hs
  show "\n".toList.map id = ("\n".toList.map W.lit).flatMap e
  rw [flatMap_lit hW, List.map_id]

theorem mem_breaks {s : List α} {a : α} (h : a ∈ breaks W s) : a ∈ s ∨ a ∈ W.mark .br := by
  rcases Pattern.mem_replaceAll h with h | ⟨x, -, h⟩
  · exact Or.inl h
  · exact Or.inr h

/-- The text that the links are looked for in. -/
def emphasized (W : Writing α) (s : List α) : List α := code W (em W (strong W s))

theorem mem_emphasized {s : List α} {a : α} (h : a ∈ emphasized W s) :
    a ∈ s ∨ ∃ m, a ∈ W.mark m := by
  rcases mem_emphasis h with h | h
  · rcases mem_emphasis h with h | h
    · exact mem_emphasis h
    · exact Or.inr h
  · exact Or.inr h

/-- What is there after the rules was there, or is markup. -/
theorem mem_rules {s : List α} {a : α} (h : a ∈ rules W s) :
    a ∈ s ∨ (∃ m, a ∈ W.mark m) ∨ ∃ u, Address W (emphasized W s) u ∧ a ∈ W.link u := by
  rcases mem_breaks h with h | h
  · rcases mem_links h with h | h | h
    · rcases mem_emphasized h with h | h
      · exact Or.inl h
      · exact Or.inr (Or.inl h)
    · exact Or.inr (Or.inr h)
    · exact Or.inr (Or.inl ⟨_, h⟩)
  · exact Or.inr (Or.inl ⟨_, h⟩)

/-- **What the rules do to symbols they do to the words of the symbols.** Rule by rule: each finds
the same matches in both, and writes what `Stands` says is the same. -/
theorem rules_expand (hW : Stands W e) {s : List α} (hs : ∀ a ∈ s, Quiet W e a) :
    (rules W s).flatMap e = rules plain (s.flatMap e) := by
  have hmark : ∀ a, (∃ m, a ∈ W.mark m) → Quiet W e a := fun a ⟨m, h⟩ => hW.quiet m a h
  have hstrong : ∀ a ∈ strong W s, Quiet W e a := fun a h => (mem_emphasis h).elim (hs a) (hmark a)
  have hem : ∀ a ∈ em W (strong W s), Quiet W e a := fun a h =>
    (mem_emphasis h).elim (hstrong a) (hmark a)
  have hcode : ∀ a ∈ code W (em W (strong W s)), Quiet W e a := fun a h =>
    (mem_emphasis h).elim (hem a) (hmark a)
  have hline : ∀ a, Quiet W e a → OnOneLine W e a := by
    rintro a (h | h)
    · exact Or.inl h
    · exact Or.inr ⟨h.ne_nil, fun hc => absurd (h.letters _ hc) (by decide)⟩
  have hlinks : ∀ a ∈ links W (code W (em W (strong W s))), OnOneLine W e a := by
    intro a ha
    rcases mem_links ha with h | ⟨u, hu, h⟩ | h
    · exact hline a (hcode a h)
    · exact hW.onOneLine u (hu.newline_notMem hW hcode) a h
    · exact hline a (hW.quiet _ a h)
  have hs₁ : (strong W s).flatMap e = strong plain (s.flatMap e) :=
    emphasis_expand hW _ (by decide) (by decide) (by decide) dot_of_neutral _ _ hs
  have hs₂ : (em W (strong W s)).flatMap e = em plain ((strong W s).flatMap e) :=
    emphasis_expand hW _ (by decide) (by decide) (by decide) dot_of_neutral _ _ hstrong
  have hs₃ : (code W (em W (strong W s))).flatMap e = code plain ((em W (strong W s)).flatMap e) :=
    emphasis_expand hW _ (by decide) (by decide) (by decide) code_of_neutral _ _ hem
  unfold rules
  rw [breaks_expand hW hlinks, links_expand hW hcode, hs₃, hs₂, hs₁]

end MessagesApp.Markdown
