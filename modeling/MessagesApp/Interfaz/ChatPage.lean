import Mathlib.Data.List.Chain
import MessagesApp.Interfaz.CodeBlocks
import MessagesApp.Interfaz.Html
import MessagesApp.Interfaz.Chatbot

/-!
# The page of a chatbot

`chat_template.html` writes the history twice (17–22): `msg.text` in the body of a bubble, where the
template escapes it, and `msg.text|escapejs` in the attribute `data-md`, which `hydrateExisting`
(71–77) renders again for the bubbles of the bot. The attribute is not a script, so nobody reads the
escapes of `escapejs` back there: a reply is shown as it was when it arrived only if it has no
letter that `escapejs` writes otherwise.

Two results come of it. `page_inert`: whatever was said, the box has the tags of its bubbles and no
others, and where a reply is rendered again its escapes keep it from tearing a tag, which a reply
that has just arrived can do (`Html.onlyOwnTags_iff`). `reloaded_iff`: what this costs, which is that
a reloaded page shows a reply with an apostrophe in it differently.

Left out: what stands around the box, the bubble with the three dots, and the headings of the bubbles
that the script adds, which are not put through `capfirst` as the headings of the template are.
-/

set_option autoImplicit false

namespace MessagesApp.ChatPage

open Py Lib Markdown Html Chatbot

/-! ## Escapes -/

/-- `html.escape`; the script's `escapeHtml` has another word for the apostrophe. -/
def escapeWith (apostrophe : String) (s : List Char) : List Char :=
  replaceChar '\'' apostrophe (replaceChar '"' "&quot;"
    (replaceChar '>' "&gt;" (replaceChar '<' "&lt;" (replaceChar '&' "&amp;" s))))

/-- What `{{ … }}` does to a text. -/
def autoescape (s : List Char) : List Char := escapeWith "&#x27;" s

theorem escapeHtml_eq_escapeWith (s : List Char) : escapeHtml s = escapeWith "&#39;" s := rfl

def hexDigit (d : Nat) : Char := Char.ofNat (if d < 10 then 48 + d else 55 + d)

def hexVal (c : Char) : Nat := if c.toNat < 58 then c.toNat - 48 else c.toNat - 55

/-- `"\\u%04X" % n` -/
def unicodeEscape (n : Nat) : List Char :=
  ['\\', 'u', hexDigit (n / 4096 % 16), hexDigit (n / 256 % 16), hexDigit (n / 16 % 16),
    hexDigit (n % 16)]

/-- The letters that `escapejs` writes as their number: some of ASCII, and the two line separators.
What would end a literal of the script, an attribute or a text is among them; which others are is
left open. -/
structure Escapes where
  escaped : Char → Bool
  range : ∀ c, escaped c = true → c.toNat < 128 ∨ c = '\u2028' ∨ c = '\u2029'
  special : ∀ c ∈ ['\\', '\'', '"', '<', '>', '&', '`', '\n', '\r'], escaped c = true

namespace Escapes

def letter (E : Escapes) (c : Char) : List Char :=
  if E.escaped c then unicodeEscape c.toNat else [c]

/-- `value|escapejs` -/
def escapejs (E : Escapes) (s : List Char) : List Char := s.flatMap E.letter

end Escapes

/-! ## The page as it is served -/

/-- What a page is written with: the letters of `escapejs`, `str.upper` of a letter, and the two
texts of a value. `{{ v }}` writes a number by the format of the language, `escapejs` goes by
`str(v)`, so that the reply `1e16` stands in one bubble as `10000000000000000` and as `1e+16`. A
text is itself in both, and no value but the empty text has an empty `str`. -/
structure Templates extends Escapes where
  upper : Char → List Char
  shown : Value → List Char
  str : Value → List Char
  shown_str : ∀ s, shown (.str s) = s.toList
  str_str : ∀ s, str (.str s) = s.toList
  shown_eq_nil : ∀ v, str v = [] → shown v = []

/-- `data-md="{{ msg.text|escapejs }}"`. The result of `escapejs` is marked safe, and has nothing
that the template would escape. -/
def dataMd (T : Templates) (m : Entry) : List Char := T.escapejs (T.str m.text)

/-- The character references of the two escapes, which are all that a browser finds in the box. -/
inductive Reference
  | amp
  | lt
  | gt
  | quot
  | x27
  | n39
deriving DecidableEq

namespace Reference

def all : List Reference := [.amp, .lt, .gt, .quot, .x27, .n39]

def word : Reference → List Char
  | .amp => "&amp;".toList
  | .lt => "&lt;".toList
  | .gt => "&gt;".toList
  | .quot => "&quot;".toList
  | .x27 => "&#x27;".toList
  | .n39 => "&#39;".toList

def char : Reference → Char
  | .amp => '&'
  | .lt => '<'
  | .gt => '>'
  | .quot => '"'
  | .x27 => '\''
  | .n39 => '\''

def pattern : Pattern Char Reference where
  find s := all.find? fun r => r.word.isPrefixOf s
  text := word
  text_starts := by
    intro s r h
    have hprefix : r.word.isPrefixOf s = true :=
      List.find?_some (p := fun r : Reference => r.word.isPrefixOf s) h
    exact List.isPrefixOf_iff_prefix.mp hprefix
  text_ne_nil r := by cases r <;> exact List.cons_ne_nil _ _

end Reference

/-- What a browser reads of a text without tags, or of an attribute. -/
def textContent (s : List Char) : List Char := Reference.pattern.replaceAll (fun r => [r.char]) s

/-! ## The script -/

/-- `hydrateExisting`, for one body: `el.dataset.md || el.textContent || ""`, rendered. -/
def hydrated (T : Templates) (m : Entry) : List Char :=
  let dataset := textContent (dataMd T m)
  renderMarkdown (if dataset = [] then textContent (autoescape (T.shown m.text)) else dataset)

/-- What is in a body: a text, or HTML. -/
inductive Body
  | text (s : List Char)
  | html (s : List Char)

/-- What a body has when the page is loaded and its script has run: the script renders the bodies
with `data-bot="1"` again and leaves the others as the template wrote them. -/
def loaded (T : Templates) (m : Entry) : Body :=
  if m.sender = "bot" then .html (hydrated T m)
  else .text (textContent (autoescape (T.shown m.text)))

/-- `addBubble`, of a body (79–103): a reply is rendered, a message is escaped and set as HTML,
which is to say as its text. -/
def addBubble (text : List Char) (isBot : Bool) : Body :=
  if isBot then .html (renderMarkdown text) else .text (textContent (escapeHtml text))

/-- A message and a reply that is a text. -/
structure Talk where
  sender : String
  message : String
  reply : String

/-- What the view puts into the history for it. -/
def Talk.entries (x : Talk) (tipo : String) : List Entry :=
  Exchange.entries ⟨tipo, x.sender, x.message, .str x.reply⟩

/-- The bodies of the two bubbles that the script adds for it. Their headings are the sender and
`bot` as they are; the template puts both through `capfirst`, so that a heading changes with a
reload whatever the body does. -/
def Talk.added (x : Talk) : List Body :=
  [addBubble x.message.toList false, addBubble x.reply.toList true]

/-- A literal of the script up to its quote, and what follows; a line does not end in it. Of the
escapes only the one that `escapejs` writes is read. -/
def literal : List Char → Option (List Char × List Char)
  | '"' :: rest => some ([], rest)
  | '\\' :: 'u' :: a :: b :: c :: d :: rest =>
      (literal rest).map fun x => (Char.ofNat (((hexVal a * 16 + hexVal b) * 16 + hexVal c) * 16
        + hexVal d) :: x.1, x.2)
  | c :: rest =>
      if c ∈ ['\\', '\n', '\r'] then none else (literal rest).map fun x => (c :: x.1, x.2)
  | [] => none

variable {T : Templates} {E : Escapes}

/-! ## What `escapejs` writes -/

/-- By cases: of a letter of ASCII, it is checked for each. -/
theorem ascii {P : Char → Prop} (h : ∀ n, n < 128 → P (Char.ofNat n)) (c : Char)
    (hc : c.toNat < 128) : P c := by
  have hp := h c.toNat hc
  rwa [Char.ofNat_toNat] at hp

theorem letter_escaped {c : Char} (h : E.escaped c = true) :
    E.letter c = unicodeEscape c.toNat := if_pos h

theorem letter_plain {c : Char} (h : E.escaped c = false) : E.letter c = [c] :=
  if_neg (by simp [h])

/-- The letters of an escape are no special ones, but for the first. -/
theorem escape_letters {c : Char} (h : E.escaped c = true) : (unicodeEscape c.toNat).all
    (· ∉ ['\'', '"', '<', '>', '&', '`', '\n', '\r']) = true := by
  rcases E.range c h with hc | rfl | rfl
  · exact ascii (P := fun c => (unicodeEscape c.toNat).all
      (· ∉ ['\'', '"', '<', '>', '&', '`', '\n', '\r']) = true) (by decide +kernel) c hc
  · decide
  · decide

theorem escapejs_notMem {d : Char} (hd : d ∈ ['\'', '"', '<', '>', '&', '`', '\n', '\r'])
    (s : List Char) : d ∉ E.escapejs s := by
  intro hmem
  obtain ⟨c, -, hc⟩ := List.mem_flatMap.mp hmem
  cases h : E.escaped c with
  | true =>
    rw [letter_escaped h] at hc
    exact of_decide_eq_true (List.all_eq_true.mp (escape_letters h) d hc) hd
  | false =>
    rw [letter_plain h, List.mem_singleton] at hc
    subst hc
    rw [E.special d (List.mem_cons_of_mem _ hd)] at h
    cases h

theorem escapejs_cons (c : Char) (s : List Char) :
    E.escapejs (c :: s) = E.letter c ++ E.escapejs s := List.flatMap_cons ..

/-! ## The literal -/

theorem replaceChar_append (c : Char) (w : String) (s t : List Char) :
    replaceChar c w (s ++ t) = replaceChar c w s ++ replaceChar c w t := List.flatMap_append ..

theorem escapeWith_cons (w : String) (c : Char) (s : List Char) :
    escapeWith w (c :: s) = escapeWith w [c] ++ escapeWith w s := by
  rw [← List.singleton_append]
  simp only [escapeWith, replaceChar_append]

theorem escapeWith_other {w : String} {c : Char} (h : c ∉ ['&', '<', '>', '"', '\'']) :
    escapeWith w [c] = [c] := by
  simp only [List.mem_cons, List.not_mem_nil, or_false, not_or] at h
  obtain ⟨h₁, h₂, h₃, h₄, h₅⟩ := h
  unfold escapeWith
  rw [CodeBlocks.replaceChar_other h₁, CodeBlocks.replaceChar_other h₂,
    CodeBlocks.replaceChar_other h₃, CodeBlocks.replaceChar_other h₄,
    CodeBlocks.replaceChar_other h₅]

/-- A letter is written as its reference, or as itself. -/
theorem escapeWith_letter {q : Reference} {w : String} (hq : q.char = '\'')
    (hw : q.word = w.toList) (c : Char) :
    (∃ r : Reference, r.char = c ∧ escapeWith w [c] = r.word) ∨
      c ∉ ['&', '<', '>', '"', '\''] ∧ escapeWith w [c] = [c] := by
  by_cases h : c ∈ ['&', '<', '>', '"', '\'']
  · left
    simp only [List.mem_cons, List.not_mem_nil, or_false] at h
    rcases h with rfl | rfl | rfl | rfl | rfl
    · exact ⟨.amp, rfl, rfl⟩
    · exact ⟨.lt, rfl, rfl⟩
    · exact ⟨.gt, rfl, rfl⟩
    · exact ⟨.quot, rfl, rfl⟩
    · refine ⟨q, hq, ?_⟩
      show w.toList ++ [] = _
      rw [List.append_nil, hw]
  · exact Or.inr ⟨h, escapeWith_other h⟩

theorem find_word (r : Reference) (s : List Char) :
    Reference.pattern.find (r.word ++ s) = some r := by
  cases r <;> rfl

theorem find_other {c : Char} (h : c ≠ '&') (s : List Char) :
    Reference.pattern.find (c :: s) = none := by
  show Reference.all.find? (fun r => r.word.isPrefixOf (c :: s)) = none
  refine List.find?_eq_none.mpr fun r _ => ?_
  have hamp : ∃ w, r.word = '&' :: w := by cases r <;> exact ⟨_, rfl⟩
  obtain ⟨w, hw⟩ := hamp
  rw [hw]
  simp [Ne.symm h]

/-- **A browser reads an escaped text as the text.** Each letter is written as itself or as a
reference, and no reference can be read across two letters. -/
theorem textContent_escapeWith {q : Reference} {w : String} (hq : q.char = '\'')
    (hw : q.word = w.toList) (s : List Char) : textContent (escapeWith w s) = s := by
  induction s with
  | nil => rfl
  | cons c s ih =>
    unfold textContent at ih ⊢
    rw [escapeWith_cons]
    rcases escapeWith_letter hq hw c with ⟨r, rfl, hr⟩ | ⟨hc, hr⟩
    · have hfind := find_word r (escapeWith w s)
      rw [hr]
      refine (Pattern.replaceAll_hit hfind).trans ?_
      rw [ih]
      rfl
    · have hamp : c ≠ '&' := by
        rintro rfl
        exact hc List.mem_cons_self
      rw [hr, List.singleton_append, Pattern.replaceAll_miss (find_other hamp _), ih]

theorem textContent_of_notMem {s : List Char} (h : '&' ∉ s) : textContent s = s := by
  induction s with
  | nil => rfl
  | cons c s ih =>
    have hc : c ≠ '&' := fun hc => h (hc ▸ List.mem_cons_self)
    unfold textContent at ih ⊢
    rw [Pattern.replaceAll_miss (find_other hc s), ih fun hs => h (List.mem_cons_of_mem c hs)]

theorem textContent_autoescape (s : List Char) : textContent (autoescape s) = s :=
  textContent_escapeWith (q := .x27) rfl rfl s

/-- The escapes have no character reference: the browser hands them to the script as they are. -/
theorem textContent_dataMd (m : Entry) : textContent (dataMd T m) = dataMd T m :=
  textContent_of_notMem (escapejs_notMem (by decide) (T.str m.text))

theorem escapejs_eq_nil {s : List Char} : E.escapejs s = [] ↔ s = [] := by
  constructor
  · intro h
    cases s with
    | nil => rfl
    | cons c s =>
      rw [escapejs_cons] at h
      have hc := (List.append_eq_nil_iff.mp h).1
      unfold Escapes.letter at hc
      split at hc
      · exact absurd hc (List.cons_ne_nil _ _)
      · exact absurd hc (List.cons_ne_nil _ _)
  · rintro rfl
    rfl

theorem hydrated_eq (m : Entry) : hydrated T m = renderMarkdown (dataMd T m) := by
  unfold hydrated
  rw [textContent_dataMd, textContent_autoescape]
  by_cases hempty : T.str m.text = []
  · have hmd : dataMd T m = [] := escapejs_eq_nil.mpr hempty
    rw [hmd, T.shown_eq_nil _ hempty]
    rfl
  · have hmd : dataMd T m ≠ [] := fun h => hempty (escapejs_eq_nil.mp h)
    simp only [if_neg hmd]

/-! ## The tags of the page -/

theorem takeOut_plain {n : Nat} {l : List (Char ⊕ List Char)}
    (h : l.filterMap Sum.getRight? = []) :
    (takeOut n l).1 = l.flatMap (Sum.elim (fun c => [c]) (fence (letters Char)).text) := by
  induction l with
  | nil => rfl
  | cons x l ih =>
    cases x with
    | inl c => exact congrArg (c :: ·) (ih h)
    | inr code => cases h

/-- Without fences there is nothing but the rules. -/
theorem renderMarkdown_plain {md : List Char} (h : CodeBlocks.contents md = []) :
    renderMarkdown md = rules plain (escapeHtml md) := by
  have hnone : ((fence (letters Char)).scan (escapeHtml md)).filterMap Sum.getRight? = [] := by
    have hblocks := CodeBlocks.blocks_escape ((fence (letters Char)).scan md)
    rw [← CodeBlocks.scan_escape] at hblocks
    rw [CodeBlocks.contents] at h
    rw [h] at hblocks
    exact List.map_eq_nil_iff.mp hblocks
  have htext : (takeOut 0 ((fence (letters Char)).scan (escapeHtml md))).1 = escapeHtml md := by
    rw [takeOut_plain hnone]
    exact Pattern.replaceAll_text _ _
  unfold renderMarkdown
  show putBack 0 (takeOut 0 _).2 (rules plain (takeOut 0 _).1) = _
  rw [takeOut_snd, hnone, htext]
  rfl

theorem contents_of_notMem {md : List Char} (h : '`' ∉ md) : CodeBlocks.contents md = [] := by
  refine List.filterMap_eq_nil_iff.mpr fun x hx => ?_
  cases x with
  | inl c => rfl
  | inr code =>
    refine absurd (Pattern.text_subset hx ?_) h
    exact List.mem_append_right _ (by decide)

theorem renderMarkdown_escapejs (s : List Char) :
    renderMarkdown (E.escapejs s) = rules plain (escapeHtml (E.escapejs s)) :=
  renderMarkdown_plain (contents_of_notMem (escapejs_notMem (by decide) s))

theorem count_nought {c : Char} (h : E.escaped c = true) :
    [c].count '0' < (E.letter c).count '0' := by
  rw [letter_escaped h]
  rcases E.range c h with hc | rfl | rfl
  · exact ascii (P := fun c => [c].count '0' < (unicodeEscape c.toNat).count '0') (by decide) c hc
  · decide
  · decide

theorem count_letter (c : Char) : [c].count '0' ≤ (E.letter c).count '0' := by
  cases h : E.escaped c with
  | true => exact (count_nought h).le
  | false => rw [letter_plain h]

theorem count_escapejs (s : List Char) : s.count '0' ≤ (E.escapejs s).count '0' := by
  induction s with
  | nil => exact le_rfl
  | cons c s ih =>
    have hc := count_letter (E := E) c
    rw [escapejs_cons, List.count_append, ← List.singleton_append, List.count_append]
    omega

theorem count_escapejs_lt {s : List Char} (h : ∃ c ∈ s, E.escaped c = true) :
    s.count '0' < (E.escapejs s).count '0' := by
  obtain ⟨c, hc, hescaped⟩ := h
  obtain ⟨s₁, s₂, rfl⟩ := List.append_of_mem hc
  have h₁ := count_escapejs (E := E) s₁
  have h₂ := count_escapejs (E := E) s₂
  have hlt := count_nought hescaped
  have happend : E.escapejs (s₁ ++ c :: s₂) = E.escapejs s₁ ++ (E.letter c ++ E.escapejs s₂) := by
    rw [← escapejs_cons]
    exact List.flatMap_append ..
  rw [happend, ← List.singleton_append]
  simp only [List.count_append]
  omega

theorem count_escapeHtml (s : List Char) : (escapeHtml s).count '0' = s.count '0' := by
  induction s with
  | nil => rfl
  | cons c s ih =>
    have hc : (escapeWith "&#39;" [c]).count '0' = [c].count '0' := by
      rcases escapeWith_letter (q := .n39) (w := "&#39;") rfl rfl c with ⟨r, rfl, hr⟩ | ⟨-, hr⟩
      · rw [hr]
        cases r <;> decide
      · rw [hr]
    rw [escapeHtml_eq_escapeWith] at ih ⊢
    rw [escapeWith_cons, List.count_append, hc, ih, ← List.count_append, List.singleton_append]

section Count

variable {α : Type} [DecidableEq α] {W : Writing α} {a : α}
  (hlit : ∀ c ∈ ['*', '`', '[', ']', '(', ')', '\n'], W.lit c ≠ a) (hmark : ∀ m, a ∉ W.mark m)
  (hlink : ∀ u, (W.link u).count a = u.count a)

include hlit

theorem count_lits {w : List Char}
    (hw : w.all (· ∈ ['*', '`', '[', ']', '(', ')', '\n']) = true) :
    (w.map W.lit).count a = 0 := by
  refine List.count_eq_zero.mpr fun h => ?_
  obtain ⟨c, hc, heq⟩ := List.mem_map.mp h
  exact hlit c (of_decide_eq_true (List.all_eq_true.mp hw c hc)) heq

include hmark

theorem count_emphasis {mark : List Char} {hne : mark ≠ []} {ok : Char → Bool} {m m' : Markup}
    (hw : mark.all (· ∈ ['*', '`', '[', ']', '(', ')', '\n']) = true) (s : List α) :
    ((emphasis W.toAlphabet mark hne ok).replaceAll
      (fun x => W.mark m ++ x ++ W.mark m') s).count a = s.count a := by
  refine Pattern.count_replaceAll fun x => ?_
  show _ = (mark.map W.lit ++ x ++ mark.map W.lit).count a
  have hm : (W.mark m).count a = 0 := List.count_eq_zero.mpr (hmark m)
  have hm' : (W.mark m').count a = 0 := List.count_eq_zero.mpr (hmark m')
  simp only [List.count_append, count_lits hlit hw, hm, hm']

include hlink

theorem count_links (s : List α) : (links W s).count a = s.count a := by
  refine Pattern.count_replaceAll fun x => ?_
  show _ = ("[".toList.map W.lit ++ x.1 ++ "](".toList.map W.lit ++ x.2 ++
    ")".toList.map W.lit).count a
  have hend : (W.mark .aEnd).count a = 0 := List.count_eq_zero.mpr (hmark .aEnd)
  simp only [List.count_append, hlink, hend]
  rw [count_lits hlit (by decide), count_lits hlit (by decide),
    count_lits hlit (by decide)]
  omega

/-- **The rules neither write nor take away** a symbol that is none of the markup's. -/
theorem count_rules (s : List α) : (rules W s).count a = s.count a := by
  have hbreaks : ∀ s : List α, (breaks W s).count a = s.count a := fun s =>
    Pattern.count_replaceAll fun _ => by
      show _ = ("\n".toList.map W.lit).count a
      rw [count_lits hlit (by decide), List.count_eq_zero.mpr (hmark .br)]
  unfold rules
  rw [hbreaks, count_links hlit hmark hlink, code, Markdown.em, strong]
  rw [count_emphasis hlit hmark (by decide), count_emphasis hlit hmark (by decide),
    count_emphasis hlit hmark (by decide)]

end Count

theorem count_nought_rules (s : List Char) : (rules plain s).count '0' = s.count '0' := by
  refine count_rules (fun c hc => ?_) (fun m => ?_) (fun u => ?_) s
  · show c ≠ '0'
    rintro rfl
    exact absurd hc (by decide)
  · cases m <;> decide
  · have hstart : linkStart.count '0' = 0 := by decide
    have hrest : linkRest.count '0' = 0 := by decide
    show (linkStart ++ u ++ linkRest).count '0' = u.count '0'
    simp only [List.count_append, hstart, hrest]
    omega

theorem count_fence_skeleton (md : List Char) (i : Nat) :
    (CodeBlocks.skeleton md).count (.fence i) = (CodeBlocks.outside md).count (.fence i) := by
  refine count_rules (fun c _ h => by cases h) (fun m h => ?_) (fun u => ?_) _
  · cases List.mem_singleton.mp h
  · show ([CodeBlocks.Sym.linkStart] ++ u ++ [CodeBlocks.Sym.linkRest]).count _ = _
    simp [List.count_append]

/-- No block begins in the text. A page with fences has one, and the page of what `escapejs` writes
has none. -/
def Unblocked (s : List Char) : Prop := s.IsChain fun a b => ¬ (a = '<' ∧ b = 'p')

theorem unblocked_of_notMem {s : List Char} (h : '<' ∉ s) : Unblocked s := by
  refine List.Pairwise.isChain (List.pairwise_of_forall_mem_list fun a ha b _ hab => ?_)
  exact h (hab.1 ▸ ha)

theorem unblocked_flatMap {α : Type} {e : α → List Char} {l : List α}
    (h : ∀ a ∈ l, Unblocked (e a) ∧ (e a).getLast? ≠ some '<') : Unblocked (l.flatMap e) := by
  induction l with
  | nil => exact List.isChain_nil
  | cons a l ih =>
    obtain ⟨⟨ha, hlast⟩, hl⟩ := List.forall_mem_cons.mp h
    rw [List.flatMap_cons]
    refine ha.append (ih hl) ?_
    rintro x hx y - ⟨rfl, -⟩
    exact hlast hx

theorem not_unblocked (before r : List Char) : ¬ Unblocked (before ++ '<' :: 'p' :: r) := by
  intro h
  exact (List.isChain_append_cons_cons.mp h).2.1 ⟨rfl, rfl⟩

theorem unblocked_skeleton (md : List Char) :
    Unblocked (CodeBlocks.fill token (CodeBlocks.skeleton md)) := by
  refine unblocked_flatMap fun a ha => ?_
  cases a with
  | char c =>
    have hc : c ≠ '<' := (CodeBlocks.letters_skeleton ha).lt
    exact ⟨List.isChain_singleton c, fun h => hc (Option.some_inj.mp h)⟩
  | mark m => cases m <;> exact ⟨by unfold Unblocked; decide, by decide⟩
  | linkStart => exact ⟨by unfold Unblocked; decide, by decide⟩
  | linkRest => exact ⟨by unfold Unblocked; decide, by decide⟩
  | fence i =>
    have hlt : '<' ∉ token i := notMem_token (by decide) (by decide)
    exact ⟨unblocked_of_notMem hlt, fun h => hlt (List.mem_of_getLast? h)⟩

theorem blocked_put (n : Nat) (before after code : List Char) : ¬ Unblocked
    (before ++ substitute (token n) before after (CodeBlocks.block code) ++ after) := by
  obtain ⟨r, hr⟩ := CodeBlocks.substitute_block (token n) before after code
  rw [hr, List.append_assoc]
  exact not_unblocked before _

theorem blocked_putBack {n : Nat} {codes : List (List Char)} {s : List Char}
    (h : ¬ Unblocked s) : ¬ Unblocked (putBack n (codes.map CodeBlocks.block) s) := by
  induction codes generalizing n s with
  | nil => exact h
  | cons code codes ih =>
    refine ih ?_
    unfold replaceFirst
    cases hsplit : splitFirst (token n) s with
    | none => exact h
    | some x => exact blocked_put n x.1 x.2 code

/-- **A page with fences has a block.** -/
theorem blocked_renderMarkdown {md : List Char} (h : CodeBlocks.contents md ≠ []) :
    ¬ Unblocked (renderMarkdown md) := by
  rw [CodeBlocks.renderMarkdown_eq]
  have hfence : CodeBlocks.Sym.fence 0 ∈ CodeBlocks.skeleton md := by
    refine List.count_pos_iff.mp ?_
    rw [count_fence_skeleton]
    refine List.count_pos_iff.mpr (CodeBlocks.mem_fences.mp ?_)
    show 0 ∈ CodeBlocks.fences (CodeBlocks.outsideFrom 0 _)
    rw [CodeBlocks.fences_outsideFrom]
    exact List.mem_range'_1.mpr ⟨le_rfl, by
      rw [Nat.zero_add]
      exact List.length_pos_of_ne_nil h⟩
  obtain ⟨s₁, s₂, hs⟩ := List.append_of_mem hfence
  rw [hs, CodeBlocks.fill_append, CodeBlocks.fill_cons]
  cases hcodes : CodeBlocks.contents md with
  | nil => exact absurd hcodes h
  | cons code codes =>
    show ¬ Unblocked (putBack 1 (codes.map CodeBlocks.block) (replaceFirst (token 0) _ _))
    refine blocked_putBack ?_
    obtain ⟨before, after, hsplit, -⟩ := splitFirst_isSome (token_ne_nil 0)
      (CodeBlocks.fill token s₁) (CodeBlocks.fill token s₂)
    rw [List.append_assoc] at hsplit
    have hput : replaceFirst (token 0) (CodeBlocks.block code) (CodeBlocks.fill token s₁ ++
        (token 0 ++ CodeBlocks.fill token s₂)) =
        before ++ substitute (token 0) before after (CodeBlocks.block code) ++ after := by
      unfold replaceFirst
      rw [hsplit]
    exact hput ▸ blocked_put 0 before after code

theorem escapejs_of_plain {s : List Char} (h : ∀ c ∈ s, E.escaped c = false) :
    E.escapejs s = s := by
  have hsame : E.escapejs s = s.flatMap fun c => [c] :=
    List.flatMap_congr fun c hc => letter_plain (h c hc)
  rw [hsame]
  exact List.flatMap_singleton' s

theorem renderMarkdown_escapejs_iff (s : List Char) :
    renderMarkdown (E.escapejs s) = renderMarkdown s ↔ ∀ c ∈ s, E.escaped c = false := by
  constructor
  · intro h c hc
    by_contra hescaped
    by_cases hcontents : CodeBlocks.contents s = []
    · have hlt := count_escapejs_lt ⟨c, hc, by simpa using hescaped⟩
      have hcount := congrArg (List.count '0') h
      rw [renderMarkdown_escapejs, renderMarkdown_plain hcontents, count_nought_rules,
        count_nought_rules, count_escapeHtml, count_escapeHtml] at hcount
      omega
    · refine blocked_renderMarkdown hcontents ?_
      rw [← h, CodeBlocks.renderMarkdown_eq, contents_of_notMem (escapejs_notMem (by decide) s)]
      exact unblocked_skeleton _
  · intro h
    rw [escapejs_of_plain h]

/-- A reply is rendered again as it was exactly if it has no letter that `escapejs` writes
otherwise: the number of noughts tells the two apart. -/
theorem hydrated_iff (m : Entry) : hydrated T m = renderMarkdown (T.str m.text) ↔
    ∀ c ∈ T.str m.text, T.escaped c = false := by
  rw [hydrated_eq]
  exact renderMarkdown_escapejs_iff (T.str m.text)

/-! ## The page -/

theorem loaded_talk (tipo : String) {x : Talk} (hbot : x.sender ≠ "bot") :
    (x.entries tipo).map (loaded T) =
      [.text x.message.toList, .html (hydrated T ⟨"bot", .str x.reply⟩)] := by
  have hmine : loaded T ⟨x.sender, .str x.message⟩ = .text x.message.toList := by
    show (if x.sender = "bot" then _ else _) = _
    rw [if_neg hbot, textContent_autoescape, T.shown_str]
  have hreply : loaded T ⟨"bot", .str x.reply⟩ = .html (hydrated T ⟨"bot", .str x.reply⟩) :=
    if_pos rfl
  show [loaded T ⟨x.sender, .str x.message⟩, loaded T ⟨"bot", .str x.reply⟩] = _
  rw [hmine, hreply]

theorem added_talk (x : Talk) :
    x.added = [.text x.message.toList, .html (renderMarkdown x.reply.toList)] := by
  have hmine : addBubble x.message.toList false = .text x.message.toList :=
    congrArg Body.text (textContent_escapeWith (q := .n39) rfl rfl _)
  rw [Talk.added, hmine]
  rfl

/-- **A page that is loaded again has the bodies of the talks as they went exactly when no reply
has a letter that `escapejs` writes otherwise.** A user whose name is `bot` is left out: the
template takes what such a user wrote for replies. -/
theorem reloaded_iff (T : Templates) (tipo : String) (talks : List Talk)
    (hbot : ∀ x ∈ talks, x.sender ≠ "bot") :
    (talks.flatMap (Talk.entries · tipo)).map (loaded T) = talks.flatMap Talk.added ↔
      ∀ x ∈ talks, ∀ c ∈ x.reply.toList, T.escaped c = false := by
  induction talks with
  | nil => simp
  | cons x talks ih =>
    obtain ⟨hx, htalks⟩ := List.forall_mem_cons.mp hbot
    have hiff := hydrated_iff (T := T) ⟨"bot", .str x.reply⟩
    rw [T.str_str] at hiff
    rw [List.flatMap_cons, List.flatMap_cons, List.map_append, loaded_talk tipo hx, added_talk,
      List.forall_mem_cons, ← ih htalks, ← hiff]
    simp

/-- The letters that `escapejs` writes otherwise, with `str` for numbers too. -/
def django : Templates where
  escaped c := c.toNat < 32 ||
    c ∈ ['\\', '\'', '"', '>', '<', '&', '=', '-', ';', '`', '\u2028', '\u2029']
  range := by
    intro c hc
    simp only [Bool.or_eq_true, decide_eq_true_eq, List.mem_cons, List.not_mem_nil, or_false] at hc
    rcases hc with hc | rfl | rfl | rfl | rfl | rfl | rfl | rfl | rfl | rfl | rfl | rfl | rfl
    · exact Or.inl (by omega)
    all_goals decide
  special := List.all_eq_true.mp (by decide)
  upper c := [c.toUpper]
  shown v := v.toStr.toList
  str v := v.toStr.toList
  shown_str _ := rfl
  str_str _ := rfl
  shown_eq_nil _ := id

/-- A reply with an apostrophe in it is another one behind a reload. -/
theorem reloaded_iff_apostrophe : ∃ x : Talk, [x].flatMap Talk.added ≠
    ([x].flatMap (Talk.entries · "utilidad")).map (loaded django) := by
  refine ⟨⟨"ana", "hola", "It's ready"⟩, fun h => ?_⟩
  have hplain := (reloaded_iff django "utilidad" [⟨"ana", "hola", "It's ready"⟩]
    (by decide)).mp h.symm
  exact absurd (hplain _ (List.mem_singleton_self _) '\'' (by decide)) (by decide)

end MessagesApp.ChatPage
