import MessagesApp.Interfaz.Markdown

/-!
# What is taken out and put back

The two ends of the loop of `renderMarkdown`: what a block can be, and where a placeholder can be
found. Both `CodeBlocks` and `Html` go through the loop with these facts.

A block that is put back is escaped text between tags; of its `$` patterns only three can be there,
for an apostrophe is escaped (`part_codeBlock`): a `$`, the placeholder, and the text in front of
it. A block without patterns is put back as it is (`substitute_plain`).

A placeholder cannot begin within markup, nor run into it (`Apart`, `occurrence_cases`), so that it
is found in the text, in an address or in a block. What is found is the first occurrence, in the
text as it is by then (`splitFirst_some`), and whether that is the one meant can be seen from what
is in front of the one meant (`splitFirst_append`, `splitFirst_earlier`).
-/

set_option autoImplicit false

namespace MessagesApp.Markdown

open Lib

/-! ## Escaped text -/

/-- What an escaped text has no other letters than. It has ampersands, of its references. -/
structure Escaped (c : Char) : Prop where
  lt : c ≠ '<'
  quote : c ≠ '"'
  apostrophe : c ≠ '\''

theorem mem_replaceChar {c x : Char} {w : String} {s : List Char} (h : x ∈ replaceChar c w s) :
    x ∈ s ∧ x ≠ c ∨ x ∈ w.toList := by
  obtain ⟨y, hy, hx⟩ := List.mem_flatMap.mp h
  split at hx
  · exact Or.inr hx
  · rename_i hyc
    rw [List.mem_singleton] at hx
    subst hx
    exact Or.inl ⟨hy, hyc⟩

theorem escaped_of_mem {c : Char} {s : List Char} (h : c ∈ escapeHtml s) : Escaped c := by
  have hword : ∀ w ∈ ["&#39;", "&quot;", "&gt;", "&lt;"],
      '<' ∉ w.toList ∧ '"' ∉ w.toList ∧ '\'' ∉ w.toList := by decide
  have hnew : ∀ {w : String}, w ∈ ["&#39;", "&quot;", "&gt;", "&lt;"] → c ∈ w.toList →
      Escaped c := by
    intro w hw hc
    obtain ⟨hlt, hquote, hapostrophe⟩ := hword w hw
    exact ⟨fun h => hlt (h ▸ hc), fun h => hquote (h ▸ hc), fun h => hapostrophe (h ▸ hc)⟩
  rcases mem_replaceChar h with ⟨h, hapostrophe⟩ | h
  · rcases mem_replaceChar h with ⟨h, hquote⟩ | h
    · rcases mem_replaceChar h with ⟨h, -⟩ | h
      · rcases mem_replaceChar h with ⟨-, hlt⟩ | h
        · exact ⟨hlt, hquote, hapostrophe⟩
        · exact hnew (by simp) h
      · exact hnew (by simp) h
    · exact hnew (by simp) h
  · exact hnew (by simp) h

/-! ## Replacement strings -/

theorem parts_cons {c : Char} {r : List Char} (h : c ≠ '$') :
    parts (c :: r) = .char c :: parts r := by
  rw [parts] <;> exact fun _ hc _ => h hc

theorem parts_lit {p : List Char} (h : '$' ∉ p) (r : List Char) :
    parts (p ++ r) = p.map .char ++ parts r := by
  induction p with
  | nil => rfl
  | cons c p ih =>
    have hc : c ≠ '$' := fun hc => h (hc ▸ List.mem_cons_self)
    rw [List.cons_append, parts_cons hc, ih fun hp => h (List.mem_cons_of_mem c hp)]
    rfl

/-- No pattern goes beyond a `<`. -/
theorem parts_lt (r s : List Char) : parts (r ++ '<' :: s) = parts r ++ parts ('<' :: s) := by
  fun_induction parts r with
  | case1 r ih => exact congrArg (Part.char '$' :: ·) ih
  | case2 r ih => exact congrArg (Part.matched :: ·) ih
  | case3 r ih => exact congrArg (Part.before :: ·) ih
  | case4 r ih => exact congrArg (Part.after :: ·) ih
  | case5 c r h₁ h₂ h₃ h₄ ih =>
    by_cases hc : c = '$'
    · subst hc
      cases r with
      | nil => rfl
      | cons d r =>
        rw [List.cons_append, List.cons_append, parts, ← List.cons_append, ih]
        · rfl
        · exact fun _ _ hr => h₁ r rfl (by rw [(List.cons.inj hr).1])
        · exact fun _ _ hr => h₂ r rfl (by rw [(List.cons.inj hr).1])
        · exact fun _ _ hr => h₃ r rfl (by rw [(List.cons.inj hr).1])
        · exact fun _ _ hr => h₄ r rfl (by rw [(List.cons.inj hr).1])
    · rw [List.cons_append, parts_cons hc, ih]
      rfl
  | case6 => rfl

/-- The last letter of what stands for a part. -/
def Part.letter : Part → Char
  | .char c => c
  | .matched => '&'
  | .before => '`'
  | .after => '\''

theorem letter_mem {x : Part} {r : List Char} (h : x ∈ parts r) : x.letter ∈ r := by
  have hskip : ∀ {c d : Char} {r : List Char}, x.letter ∈ r → x.letter ∈ c :: d :: r :=
    fun h => List.mem_cons_of_mem _ (List.mem_cons_of_mem _ h)
  fun_induction parts r with
  | case1 r ih =>
    rcases List.mem_cons.mp h with rfl | h
    · exact List.mem_cons_self
    · exact hskip (ih h)
  | case2 r ih =>
    rcases List.mem_cons.mp h with rfl | h
    · exact List.mem_cons_of_mem _ List.mem_cons_self
    · exact hskip (ih h)
  | case3 r ih =>
    rcases List.mem_cons.mp h with rfl | h
    · exact List.mem_cons_of_mem _ List.mem_cons_self
    · exact hskip (ih h)
  | case4 r ih =>
    rcases List.mem_cons.mp h with rfl | h
    · exact List.mem_cons_of_mem _ List.mem_cons_self
    · exact hskip (ih h)
  | case5 c r h₁ h₂ h₃ h₄ ih =>
    rcases List.mem_cons.mp h with rfl | h
    · exact List.mem_cons_self
    · exact List.mem_cons_of_mem _ (ih h)
  | case6 => cases h

/-- A part that is no letter stands in the text: a `$` and the letter behind it. -/
theorem pattern_isInfix {x : Part} {r : List Char} (h : x ∈ parts r) (hx : ∀ c, x ≠ .char c) :
    ['$', x.letter] <:+: r := by
  have hskip : ∀ {a b : Char} {r : List Char}, ['$', x.letter] <:+: r →
      ['$', x.letter] <:+: a :: b :: r :=
    fun h => List.infix_cons (List.infix_cons h)
  fun_induction parts r with
  | case1 r ih =>
    rcases List.mem_cons.mp h with rfl | h
    · exact absurd rfl (hx '$')
    · exact hskip (ih h)
  | case2 r ih =>
    rcases List.mem_cons.mp h with rfl | h
    · exact ⟨[], r, rfl⟩
    · exact hskip (ih h)
  | case3 r ih =>
    rcases List.mem_cons.mp h with rfl | h
    · exact ⟨[], r, rfl⟩
    · exact hskip (ih h)
  | case4 r ih =>
    rcases List.mem_cons.mp h with rfl | h
    · exact ⟨[], r, rfl⟩
    · exact hskip (ih h)
  | case5 c r h₁ h₂ h₃ h₄ ih =>
    rcases List.mem_cons.mp h with rfl | h
    · exact absurd rfl (hx c)
    · exact List.infix_cons (ih h)
  | case6 => cases h

/-- A text without patterns is its letters. The four letters are those that make a pattern with a
`$` in front of them. -/
theorem parts_eq_chars {r : List Char} (h : ∀ d ∈ ['$', '&', '`', '\''], ¬ ['$', d] <:+: r) :
    parts r = r.map .char := by
  fun_induction parts r with
  | case1 r ih => exact absurd ⟨[], r, rfl⟩ (h '$' (by decide))
  | case2 r ih => exact absurd ⟨[], r, rfl⟩ (h '&' (by decide))
  | case3 r ih => exact absurd ⟨[], r, rfl⟩ (h '`' (by decide))
  | case4 r ih => exact absurd ⟨[], r, rfl⟩ (h '\'' (by decide))
  | case5 c r h₁ h₂ h₃ h₄ ih =>
    rw [ih fun d hd hr => h d hd (List.infix_cons hr)]
    rfl
  | case6 => rfl

/-! ## Blocks -/

def blockStart : List Char := "<pre><code>".toList

def blockEnd : List Char := "</code></pre>".toList

theorem mem_of_mem_trim {c : Char} {s : List Char} (h : c ∈ trim s) : c ∈ s := by
  have hdrop : ∀ {l : List Char}, c ∈ l.dropWhile isSpace → c ∈ l :=
    fun h => (List.dropWhile_suffix _).subset h
  exact hdrop (List.mem_reverse.mp (hdrop (List.mem_reverse.mp h)))

theorem trim_isInfix (s : List Char) : trim s <:+: s := by
  have hstart : s.dropWhile isSpace <:+ s := List.dropWhile_suffix _
  have hend : trim s <+: s.dropWhile isSpace := by
    have h := List.reverse_prefix.mpr
      (List.dropWhile_suffix (p := isSpace) (l := (s.dropWhile isSpace).reverse))
    rwa [List.reverse_reverse] at h
  exact hend.isInfix.trans hstart.isInfix

theorem parts_codeBlock (code : List Char) : parts (codeBlock code) =
    blockStart.map .char ++ parts (trim code) ++ blockEnd.map .char := by
  show parts (blockStart ++ trim code ++ blockEnd) = _
  have hend : parts blockEnd = blockEnd.map .char := by
    have h := parts_lit (p := blockEnd) (by decide) []
    rwa [List.append_nil, parts, List.append_nil] at h
  have hlt : blockEnd = '<' :: "/code></pre>".toList := rfl
  rw [List.append_assoc, parts_lit (by decide), List.append_assoc, ← hend, hlt, parts_lt]

theorem substitute_codeBlock (matched before after code : List Char) :
    substitute matched before after (codeBlock code) =
      blockStart ++ (parts (trim code)).flatMap (Part.text matched before after) ++ blockEnd := by
  have hchars : ∀ s : List Char,
      (s.map Part.char).flatMap (Part.text matched before after) = s := by
    intro s
    rw [List.flatMap_map]
    exact List.flatMap_singleton' s
  unfold substitute
  rw [parts_codeBlock, List.flatMap_append, List.flatMap_append, hchars, hchars]

/-- A block without patterns is put back as it is, whatever it is put into. -/
theorem substitute_plain {code : List Char}
    (h : ∀ d ∈ ['$', '&', '`', '\''], ¬ ['$', d] <:+: code) (matched before after : List Char) :
    substitute matched before after (codeBlock code) = codeBlock code := by
  have hparts : parts (trim code) = (trim code).map .char :=
    parts_eq_chars fun d hd hin => h d hd (hin.trans (trim_isInfix code))
  rw [substitute_codeBlock, hparts, List.flatMap_map]
  show blockStart ++ (trim code).flatMap (fun c => [c]) ++ blockEnd = _
  rw [List.flatMap_singleton']
  rfl

/-- An escaped block has its letters, and never asks for what is behind it. -/
theorem part_codeBlock {code : List Char} (hcode : ∀ c ∈ code, Escaped c) {x : Part}
    (h : x ∈ parts (trim code)) :
    (∃ c ∈ code, x = .char c) ∨ x = .matched ∨ x = .before := by
  have hletter : x.letter ∈ code := mem_of_mem_trim (letter_mem h)
  cases x with
  | char c => exact Or.inl ⟨c, hletter, rfl⟩
  | matched => exact Or.inr (Or.inl rfl)
  | before => exact Or.inr (Or.inr rfl)
  | after => exact absurd rfl (hcode _ hletter).apostrophe

/-- What is taken out are the blocks of the matches. -/
theorem takeOut_snd (n : Nat) (l : List (Char ⊕ List Char)) :
    (takeOut n l).2 = (l.filterMap Sum.getRight?).map codeBlock := by
  induction l generalizing n with
  | nil => rfl
  | cons x l ih =>
    cases x with
    | inl c => exact ih n
    | inr code => exact congrArg (codeBlock code :: ·) (ih (n + 1))

/-- The fences of an escaped text are of escaped letters, as is what is outside them. -/
theorem escaped_fences (md : List Char) :
    (∀ c, .inl c ∈ (fence (letters Char)).scan (escapeHtml md) → Escaped c) ∧
      ∀ code, .inr code ∈ (fence (letters Char)).scan (escapeHtml md) → ∀ c ∈ code, Escaped c := by
  refine ⟨fun c hc => escaped_of_mem (Pattern.mem_of_mem_scan hc), fun code hcode c hc => ?_⟩
  refine escaped_of_mem (Pattern.text_subset hcode ?_)
  exact List.mem_append_left _ (List.mem_append_right _ hc)

/-! ## Placeholders -/

theorem token_eq (n : Nat) : ∃ t, token n = '_' :: '_' :: t := ⟨_, rfl⟩

theorem token_ne_nil (n : Nat) : token n ≠ [] := by
  obtain ⟨t, ht⟩ := token_eq n
  rw [ht]
  exact List.cons_ne_nil _ _

/-- A placeholder has letters, digits and low lines. -/
theorem token_letters {n : Nat} {c : Char} (h : c ∈ token n) : c.isAlphanum = true ∨ c = '_' := by
  have hall : ("__CODEBLOCK_".toList ++ "__".toList).all (fun c => c.isAlphanum || c = '_') = true := by
    decide
  have hword : ∀ c ∈ "__CODEBLOCK_".toList ++ "__".toList, c.isAlphanum = true ∨ c = '_' := by
    simpa only [Bool.or_eq_true, decide_eq_true_eq] using List.all_eq_true.mp hall
  unfold token at h
  rw [List.append_assoc, List.mem_append, List.mem_append] at h
  rcases h with h | h | h
  · exact hword c (List.mem_append_left _ h)
  · have hdigits : c ∈ Nat.toDigits 10 n := by
      have hrepr : (toString n).toList = Nat.toDigits 10 n := Nat.toList_repr
      rwa [hrepr] at h
    have hdigit := Nat.isDigit_of_mem_toDigits (by decide) (by decide) hdigits
    left
    unfold Char.isAlphanum
    rw [hdigit, Bool.or_true]
  · exact hword c (List.mem_append_right _ h)

theorem neutral_of_isAlphanum {c : Char} (h : c.isAlphanum = true) : neutral c = true := by
  have hnot : ∀ {l : List Char}, l.all (fun c => !c.isAlphanum) = true → c ∉ l := by
    intro l hl hc
    have hfalse := List.all_eq_true.mp hl c hc
    rw [h] at hfalse
    cases hfalse
  have hle : ∀ {d : Char}, d.toNat ≤ 122 → c.val ≤ d.val → c.toNat ≤ 122 :=
    fun hd hcd => (UInt32.le_iff_toNat_le.mp hcd).trans hd
  have hbound : c.toNat ≤ 122 := by
    rcases Bool.or_eq_true_iff.mp h with h | h
    · rcases Bool.or_eq_true_iff.mp h with h | h
      · exact hle (show 'Z'.toNat ≤ 122 by decide) (of_decide_eq_true h).2
      · exact hle (show 'z'.toNat ≤ 122 by decide) (of_decide_eq_true (Bool.and_eq_true_iff.mp h).2)
    · exact hle (show '9'.toNat ≤ 122 by decide) (of_decide_eq_true (Bool.and_eq_true_iff.mp h).2)
  have hrange : ¬ '\u2000' ≤ c := by
    intro hle
    have hnat : ('\u2000' : Char).toNat ≤ c.toNat := hle
    exact absurd (hnat.trans hbound) (by decide)
  have hspace : isSpace c = false :=
    Bool.or_eq_false_iff.mpr ⟨decide_eq_false (hnot (by decide)), by rw [decide_eq_false hrange]; rfl⟩
  unfold neutral
  rw [hspace]
  exact decide_eq_true (hnot (by decide))

theorem token_neutral (n : Nat) : Neutral (token n) where
  letters c hc := (token_letters hc).elim neutral_of_isAlphanum fun h => by rw [h]; decide
  front := Or.inr rfl

theorem notMem_token {n : Nat} {c : Char} (hc : c.isAlphanum = false) (hlow : c ≠ '_') :
    c ∉ token n := by
  intro h
  rcases token_letters h with h | h
  · rw [hc] at h
    cases h
  · exact hlow h

theorem token_escaped {n : Nat} {c : Char} (h : c ∈ token n) : Escaped c where
  lt := by
    rintro rfl
    exact notMem_token (by decide) (by decide) h
  quote := by
    rintro rfl
    exact notMem_token (by decide) (by decide) h
  apostrophe := by
    rintro rfl
    exact notMem_token (by decide) (by decide) h

theorem escaped_takeOut {n : Nat} {l : List (Char ⊕ List Char)} (h : ∀ c, .inl c ∈ l → Escaped c) :
    ∀ c ∈ (takeOut n l).1, Escaped c := by
  induction l generalizing n with
  | nil => intro c hc; cases hc
  | cons x l ih =>
    have ih := fun n => ih (n := n) fun c hc => h c (List.mem_cons_of_mem _ hc)
    intro c hc
    cases x with
    | inl d =>
      rcases List.mem_cons.mp hc with rfl | hc
      · exact h c List.mem_cons_self
      · exact ih n c hc
    | inr code =>
      rcases List.mem_append.mp hc with hc | hc
      · exact token_escaped hc
      · exact ih (n + 1) c hc

/-- `d` and what follows it do not begin like a placeholder. -/
def apart : List Char → Bool
  | '_' :: '_' :: _ => false
  | ['_'] => false
  | _ => true

theorem apart_ne {d : List Char} (h : apart d = true) (hd : d ≠ []) (x y : List Char) (n : Nat) :
    d ++ x ≠ token n ++ y := by
  obtain ⟨t, ht⟩ := token_eq n
  rw [ht]
  intro heq
  cases d with
  | nil => exact hd rfl
  | cons c d =>
    obtain ⟨rfl, hrest⟩ := List.cons.inj heq
    cases d with
    | nil => cases h
    | cons c d =>
      obtain ⟨rfl, -⟩ := List.cons.inj hrest
      cases h

/-- No placeholder begins within `w`, so none that begins in front of `w` or in it is lost when `w`
is cut off. -/
def Apart (w : List Char) : Prop := ∀ d ∈ w.tails, apart d = true

instance (w : List Char) : Decidable (Apart w) :=
  inferInstanceAs (Decidable (∀ d ∈ w.tails, apart d = true))

theorem Apart.skip {w x before after : List Char} {n : Nat} (hw : Apart w)
    (h : w ++ x = before ++ token n ++ after) :
    ∃ before', before = w ++ before' ∧ x = before' ++ token n ++ after := by
  induction w generalizing before with
  | nil => exact ⟨before, rfl, h⟩
  | cons c w ih =>
    have hrest : Apart w := fun d hd => hw d (by rw [List.tails]; exact List.mem_cons_of_mem _ hd)
    cases before with
    | nil =>
      have hfirst : apart (c :: w) = true := hw _ (by rw [List.tails]; exact List.mem_cons_self)
      rw [List.nil_append] at h
      exact absurd h (apart_ne hfirst (List.cons_ne_nil _ _) x after n)
    | cons d before =>
      rw [List.cons_append, List.cons_append, List.cons_append] at h
      obtain ⟨rfl, hocc⟩ := List.cons.inj h
      obtain ⟨before', rfl, hx⟩ := ih hrest hocc
      exact ⟨before', rfl, hx⟩

/-- A placeholder does not go beyond a letter that it does not have: it is in front of the letter or
behind it. -/
theorem occurrence_cases {u x before after : List Char} {c : Char} {n : Nat} (hc : c ∉ token n)
    (h : u ++ c :: x = before ++ token n ++ after) :
    (∃ u', u = before ++ token n ++ u' ∧ after = u' ++ c :: x) ∨
      ∃ before', before = u ++ c :: before' ∧ x = before' ++ token n ++ after := by
  rw [List.append_assoc] at h
  rcases List.append_eq_append_iff.mp h with ⟨d, rfl, hd⟩ | ⟨d, rfl, hd⟩
  · cases d with
    | nil =>
      -- the placeholder would begin with the letter
      obtain ⟨t, ht⟩ := token_eq n
      rw [List.nil_append, ht] at hd
      obtain ⟨rfl, -⟩ := List.cons.inj hd
      exact absurd (by rw [ht]; exact List.mem_cons_self) hc
    | cons c' d =>
      rw [List.cons_append] at hd
      obtain ⟨rfl, hx⟩ := List.cons.inj hd
      exact Or.inr ⟨d, rfl, by rw [hx, List.append_assoc]⟩
  · rcases List.append_eq_append_iff.mp hd with ⟨d', rfl, hd'⟩ | ⟨d', hd', hx⟩
    · exact Or.inl ⟨d', by rw [List.append_assoc], hd'⟩
    · cases d' with
      | nil =>
        rw [List.append_nil] at hd'
        exact Or.inl ⟨[], by rw [hd', List.append_nil], hx.symm⟩
      | cons c' d' =>
        obtain ⟨rfl, -⟩ := List.cons.inj hx
        exact absurd (by rw [hd']; exact List.mem_append_right _ List.mem_cons_self) hc

/-! ## The first occurrence -/

variable {w s before after : List Char}

/-- What is found is the first occurrence. -/
theorem splitFirst_some (hw : w ≠ []) (h : splitFirst w s = some (before, after)) :
    s = before ++ w ++ after ∧
      ∀ before' after', s = before' ++ w ++ after' → before.length ≤ before'.length := by
  induction s generalizing before with
  | nil =>
    rw [splitFirst, if_neg hw] at h
    cases h
  | cons c s ih =>
    rw [splitFirst] at h
    cases hskip : skip some w (c :: s) with
    | some t =>
      rw [hskip] at h
      cases h
      have hs := (skip_eq_some (letters Char)).mp hskip
      refine ⟨?_, fun _ _ _ => Nat.zero_le _⟩
      rw [hs]
      exact congrArg (· ++ after) (List.map_id w)
    | none =>
      rw [hskip] at h
      obtain ⟨x, hx, heq⟩ := Option.map_eq_some_iff.mp h
      cases heq
      have hpair : splitFirst w s = some (x.1, x.2) := hx
      obtain ⟨hs, hfirst⟩ := ih hpair
      refine ⟨congrArg (c :: ·) hs, fun before' after' hocc => ?_⟩
      cases before' with
      | nil =>
        -- it would have been found here
        have hfound : skip some w (c :: s) = some after' := by
          refine (skip_eq_some (letters Char)).mpr ?_
          rw [hocc]
          exact congrArg (· ++ after') (List.map_id w).symm
        rw [hskip] at hfound
        cases hfound
      | cons d before' =>
        rw [List.cons_append, List.cons_append] at hocc
        exact Nat.succ_le_succ (hfirst before' after' (List.cons.inj hocc).2)

theorem splitFirst_none (hw : w ≠ []) (h : splitFirst w s = none) (before after : List Char) :
    s ≠ before ++ w ++ after := by
  induction s generalizing before with
  | nil =>
    intro hs
    have hnil := List.append_eq_nil_iff.mp hs.symm
    exact hw (List.append_eq_nil_iff.mp hnil.1).2
  | cons c s ih =>
    rw [splitFirst] at h
    cases hskip : skip some w (c :: s) with
    | some t =>
      rw [hskip] at h
      cases h
    | none =>
      rw [hskip] at h
      intro hocc
      cases before with
      | nil =>
        have hfound : skip some w (c :: s) = some after := by
          refine (skip_eq_some (letters Char)).mpr ?_
          rw [hocc]
          exact congrArg (· ++ after) (List.map_id w).symm
        rw [hskip] at hfound
        cases hfound
      | cons d before =>
        rw [List.cons_append, List.cons_append] at hocc
        exact ih (Option.map_eq_none_iff.mp h) before (List.cons.inj hocc).2

theorem splitFirst_isSome (hw : w ≠ []) (s r : List Char) :
    ∃ before after, splitFirst w (s ++ w ++ r) = some (before, after) ∧ before.length ≤ s.length := by
  cases h : splitFirst w (s ++ w ++ r) with
  | none => exact absurd rfl (splitFirst_none hw h s r)
  | some x => exact ⟨x.1, x.2, rfl, (splitFirst_some hw h).2 s r rfl⟩

/-- If `w` is found at the end of a text, it is found there whatever follows. -/
theorem splitFirst_append (hw : w ≠ []) (h : splitFirst w (s ++ w) = some (s, [])) (r : List Char) :
    splitFirst w (s ++ w ++ r) = some (s, r) := by
  obtain ⟨before, after, hsplit, hle⟩ := splitFirst_isSome hw s r
  obtain ⟨hocc, -⟩ := splitFirst_some hw hsplit
  have hge : s.length ≤ before.length := by
    -- an earlier occurrence would be one in `s ++ w`
    have hbefore : before ++ w <+: s ++ w ++ r := ⟨after, hocc.symm⟩
    obtain ⟨d, hd⟩ : before ++ w <+: s ++ w :=
      List.prefix_of_prefix_length_le hbefore ⟨r, rfl⟩ (by simpa using hle)
    exact (splitFirst_some hw h).2 before d hd.symm
  rw [List.append_assoc, List.append_assoc] at hocc
  obtain ⟨rfl, hrest⟩ := List.append_inj hocc (le_antisymm hge hle)
  rw [hsplit, List.append_cancel_left hrest]

theorem splitFirst_earlier (hw : w ≠ []) (h : splitFirst w (s ++ w) ≠ some (s, []))
    (r : List Char) : ∃ before after, splitFirst w (s ++ w ++ r) = some (before, after) ∧
      before.length < s.length := by
  obtain ⟨before, after, hsplit, hle⟩ := splitFirst_isSome hw s r
  refine ⟨before, after, hsplit, lt_of_le_of_ne hle fun hlen => h ?_⟩
  obtain ⟨b, a, hb, hshort⟩ := splitFirst_isSome hw s []
  rw [List.append_nil] at hb
  obtain ⟨hocc, -⟩ := splitFirst_some hw hb
  have hlong := (splitFirst_some hw hsplit).2 b (a ++ r) (by rw [hocc]; simp)
  rw [List.append_assoc] at hocc
  obtain ⟨rfl, hrest⟩ := List.append_inj hocc (le_antisymm (hlen ▸ hlong) hshort)
  rw [hb, List.self_eq_append_right.mp hrest]

end MessagesApp.Markdown
