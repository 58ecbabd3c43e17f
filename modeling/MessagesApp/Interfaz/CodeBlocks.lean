import MessagesApp.Interfaz.PutBack

/-!
# The fenced blocks of `renderMarkdown`

What the rules make of the text around the fences is its skeleton, in which a fence is one symbol.
The page should be the skeleton with every block in the place of its fence, and the fences in order
(`Preserved`). Two things are in the way of that: a link has its address in front of its text, which
turns fences on both sides of it around, and a block is put back at the first text that looks like
its placeholder, as what its `$` patterns say.

The first is about the skeleton alone: the emphasis and the line breaks leave the order of the
fences, and the links do exactly when none has fences on both sides (`fences_links_iff`).

The second is a loop. When the blocks before the `k`th are back, the step of the `k`th is right if
its placeholder is found at its fence and its patterns say what they are (`Undisturbed`), a
condition on the text, in which no result of the loop stands: in front of the fence the text is what
the page should be there, and behind it are placeholders. A simple case is `undisturbed_of_plain`.

That a wrong step cannot be made good is the other direction. The texts differ where the step went
wrong, and there the one has the beginning of a block, or its patterns, and the other something that
is no opening tag (`Differs`); whatever is put in later begins with `<p` and goes either behind that
place or in front of it in both. The section on closing tags gives what this takes of the skeleton.

The contents of a block are compared as escaped letters, trimmed, between their tags; how a browser
reads the rest is in `Html`.
-/

set_option autoImplicit false

namespace MessagesApp.CodeBlocks

open Lib Markdown

/-! ## Symbols -/

/-- What a rendered text is made of, with a fence as one symbol. -/
inductive Sym
  | char (c : Char)
  | mark (m : Markup)
  | linkStart
  | linkRest
  | fence (i : Nat)
deriving DecidableEq

/-- The text of a symbol, and of a fence what is in its place. -/
def Sym.text (hole : Nat → List Char) : Sym → List Char
  | .char c => [c]
  | .mark m => m.text.toList
  | .linkStart => Markdown.linkStart
  | .linkRest => Markdown.linkRest
  | .fence i => hole i

def fill (hole : Nat → List Char) (s : List Sym) : List Char := s.flatMap (Sym.text hole)

def Sym.fence? : Sym → Option Nat
  | .fence i => some i
  | _ => none

def fences (s : List Sym) : List Nat := s.filterMap Sym.fence?

/-- The writing of the rules in these symbols. No symbol but a letter is one, so the rules see a
fence as they see a tag. -/
def syms : Writing Sym where
  lit := .char
  char? a := match a with
    | .char c => some c
    | _ => none
  char?_eq := by
    intro a c
    cases a with
    | char d => simp
    | _ => simp
  mark m := [.mark m]
  link u := [.linkStart] ++ u ++ [.linkRest]

theorem syms_mark (m : Markup) : syms.mark m = [Sym.mark m] := rfl

theorem syms_link (u : List Sym) : syms.link u = [Sym.linkStart] ++ u ++ [Sym.linkRest] := rfl

/-! ## What is asked of the page -/

/-- The contents of the fences, before they are escaped. -/
def contents (md : List Char) : List (List Char) :=
  ((fence (letters Char)).scan md).filterMap Sum.getRight?

def block (code : List Char) : List Char := codeBlock (escapeHtml code)

/-- The block of each fence. -/
def whole (codes : List (List Char)) (i : Nat) : List Char := block (codes.getD i [])

/-- The escaped text around the fences, of which there were `n` before. -/
def outsideFrom (n : Nat) : List (Char ⊕ List Char) → List Sym
  | [] => []
  | .inl c :: l => (escapeHtml [c]).map .char ++ outsideFrom n l
  | .inr _ :: l => .fence n :: outsideFrom (n + 1) l

def outside (md : List Char) : List Sym := outsideFrom 0 ((fence (letters Char)).scan md)

/-- The text around the fences as the rules make it. -/
def skeleton (md : List Char) : List Sym := rules syms (outside md)

/-- The fences are in order in the skeleton, and the page is the skeleton with each block in the
place of its fence. -/
structure Preserved (md : List Char) : Prop where
  order : fences (skeleton md) = List.range (contents md).length
  text : renderMarkdown md = fill (whole (contents md)) (skeleton md)

/-! ## When that is so -/

/-- No link has fences in its text and in its address. -/
def Uncrossed (md : List Char) : Prop :=
  ∀ x, .inr x ∈ (linkPattern syms.toAlphabet).scan (emphasized syms (outside md)) →
    fences x.1 = [] ∨ fences x.2 = []

def front (k : Nat) (s : List Sym) : List Sym := s.takeWhile (· ≠ .fence k)

def behind (k : Nat) (s : List Sym) : List Sym := (s.dropWhile (· ≠ .fence k)).tail

/-- When the blocks before the `k`th are back, nothing in front of its placeholder looks like it,
and the `$` patterns of the block say what they are. -/
structure Undisturbed (codes : List (List Char)) (s : List Sym) (k : Nat) : Prop where
  found : splitFirst (token k) (fill (whole codes) (front k s) ++ token k) =
    some (fill (whole codes) (front k s), [])
  literal : substitute (token k) (fill (whole codes) (front k s)) (fill token (behind k s))
    (whole codes k) = whole codes k

/-! ## The skeleton with placeholders -/

theorem fill_append (hole : Nat → List Char) (s t : List Sym) :
    fill hole (s ++ t) = fill hole s ++ fill hole t := List.flatMap_append ..

theorem fill_cons (hole : Nat → List Char) (a : Sym) (s : List Sym) :
    fill hole (a :: s) = a.text hole ++ fill hole s := List.flatMap_cons ..

theorem fill_chars (hole : Nat → List Char) (w : List Char) : fill hole (w.map .char) = w := by
  unfold fill
  rw [List.flatMap_map]
  exact List.flatMap_singleton' w

theorem mem_fences {i : Nat} {s : List Sym} : i ∈ fences s ↔ .fence i ∈ s := by
  constructor
  · intro h
    obtain ⟨a, ha, hi⟩ := List.mem_filterMap.mp h
    cases a with
    | fence j =>
      cases hi
      exact ha
    | _ => cases hi
  · exact fun h => List.mem_filterMap.mpr ⟨_, h, rfl⟩

theorem fill_congr {hole hole' : Nat → List Char} {s : List Sym}
    (h : ∀ i ∈ fences s, hole i = hole' i) : fill hole s = fill hole' s := by
  refine List.flatMap_congr fun a ha => ?_
  cases a with
  | fence i => exact h i (mem_fences.mpr ha)
  | _ => rfl

theorem syms_stand : Stands syms (Sym.text token) where
  lit _ := rfl
  mark m := List.append_nil _
  quiet := by
    intro m a ha
    rw [List.mem_singleton.mp ha]
    right
    cases m with
    | _ => exact neutral_of_all (by decide) (Or.inl rfl)
  link u := by
    have hstart : fill token [Sym.linkStart] = linkStart := List.append_nil _
    have hrest : fill token [Sym.linkRest] = linkRest := List.append_nil _
    show fill token (syms.link u) = linkStart ++ fill token u ++ linkRest
    rw [syms_link, fill_append, fill_append, hstart, hrest]
  onOneLine := by
    intro u hu a ha
    have hne : (Sym.text token a) ≠ [] := by
      cases a with
      | char c => exact List.cons_ne_nil _ _
      | mark m => cases m with
        | _ => exact List.cons_ne_nil _ _
      | linkStart => exact List.cons_ne_nil _ _
      | linkRest => exact List.cons_ne_nil _ _
      | fence i => exact token_ne_nil i
    refine Or.inr ⟨hne, fun hc => ?_⟩
    rcases List.mem_append.mp ha with ha | ha
    · rcases List.mem_append.mp ha with ha | ha
      · rw [List.mem_singleton.mp ha] at hc
        exact absurd hc (by decide)
      · exact hu (List.mem_flatMap.mpr ⟨a, ha, hc⟩)
    · rw [List.mem_singleton.mp ha] at hc
      exact absurd hc (by decide)

/-! ## Fences of the escaped text -/

theorem escapeHtml_eq (s : List Char) : escapeHtml s = s.flatMap fun c => escapeHtml [c] := by
  induction s with
  | nil => rfl
  | cons c s ih =>
    rw [List.flatMap_cons, ← ih]
    simp only [escapeHtml, replaceChar, List.flatMap_cons, List.flatMap_append, List.flatMap_nil,
      List.append_nil]

theorem replaceChar_other {c d : Char} (h : c ≠ d) (w : String) : replaceChar d w [c] = [c] := by
  unfold replaceChar
  rw [List.flatMap_cons, if_neg h]
  rfl

theorem escape_other {c : Char} (h : c ∉ ['&', '<', '>', '"', '\'']) : escapeHtml [c] = [c] := by
  simp only [List.mem_cons, List.not_mem_nil, or_false, not_or] at h
  obtain ⟨h₁, h₂, h₃, h₄, h₅⟩ := h
  unfold escapeHtml
  rw [replaceChar_other h₁, replaceChar_other h₂, replaceChar_other h₃, replaceChar_other h₄,
    replaceChar_other h₅]

/-- A letter is written as letters none of which is a backtick or a `$`, but for these two. -/
theorem escape_letter {c x : Char} (hx : x ∈ ['`', '$']) (hc : c ≠ x) :
    escapeHtml [c] ≠ [] ∧ x ∉ escapeHtml [c] := by
  by_cases h : c ∈ ['&', '<', '>', '"', '\'']
  · have hall : ['&', '<', '>', '"', '\''].all (fun c => ['`', '$'].all fun x =>
        escapeHtml [c] ≠ [] ∧ x ∉ escapeHtml [c]) = true := by decide
    exact of_decide_eq_true (List.all_eq_true.mp (List.all_eq_true.mp hall c h) x hx)
  · rw [escape_other h]
    exact ⟨List.cons_ne_nil _ _, fun hmem => hc (List.mem_singleton.mp hmem).symm⟩

theorem skip_escape : Expands (fun _ : Char => True) (fun c => escapeHtml [c]) escapeHtml
    (skip some "```".toList) (skip some "```".toList) := by
  have hflat : (List.flatMap fun c => escapeHtml [c]) = escapeHtml :=
    funext fun s => (escapeHtml_eq s).symm
  have hskip : Expands (fun _ : Char => True) (fun c => escapeHtml [c])
      (List.flatMap fun c => escapeHtml [c]) (skip some "```".toList) (skip some "```".toList) := by
    refine Expands.skip (letters Char) (by decide) (fun c hc => ?_) fun c _ hother => ?_
    · have htick : c = '`' := by simpa using hc
      rw [htick]
      decide
    · obtain ⟨hne, hnot⟩ := escape_letter (by decide) fun h => hother '`' (by decide) h
      refine ⟨hne, fun d hd hhead => ?_, fun d hd hmem => ?_⟩
      · rw [show d = '`' from (Option.some_inj.mp hhead).symm] at hd
        exact hnot hd
      · rw [show d = '`' by simpa using hmem] at hd
        exact hnot (List.mem_of_mem_head? hd)
  rwa [hflat] at hskip

/-- **The fences of the escaped text are those of the text, escaped.** -/
theorem scan_escape (md : List Char) : (fence (letters Char)).scan (escapeHtml md) =
    ((fence (letters Char)).scan md).flatMap (Sum.elim (fun c => (escapeHtml [c]).map .inl)
      fun code => [.inr (escapeHtml code)]) := by
  have hfind : Expands (fun _ : Char => True) (fun c => escapeHtml [c]) escapeHtml
      (fence (letters Char)).find (fence (letters Char)).find := by
    have hflat : ∀ s, s.flatMap (fun c => escapeHtml [c]) = escapeHtml s :=
      fun s => (escapeHtml_eq s).symm
    have hany : Allows (fun _ : Char => True) (fun c => escapeHtml [c]) (fun _ => true)
        fun _ => true := by
      intro c _
      refine ⟨?_, Or.inl ⟨rfl, fun _ _ => rfl⟩⟩
      by_cases hc : c = '`'
      · rw [hc]
        decide
      · exact (escape_letter (by decide) hc).1
    refine ⟨fun s _ => ?_, fun c s hc hs w hw hne hproper => ?_⟩
    · show ((skip some "```".toList (s.flatMap fun c => escapeHtml [c])).bind fun s => _) =
        ((skip some "```".toList s).bind fun s => _).map _
      rw [skip_escape.agrees s fun _ _ => trivial]
      cases skip some "```".toList s with
      | none => rfl
      | some t =>
        show (lazily _ (skip some "```".toList) (escapeHtml t)).map _ = ((lazily _ _ t).map _).map _
        rw [← hflat, lazily_agrees skip_escape hany fun _ _ => trivial, Option.map_map,
          Option.map_map]
        exact Option.map_congr fun x _ => hflat x.1
    · show ((skip some "```".toList (w ++ s.flatMap fun c => escapeHtml [c])).bind fun s => _) = none
      rw [skip_escape.inner c s hc hs w hw hne hproper]
      rfl
  rw [escapeHtml_eq md]
  refine Pattern.scan_expand hfind (fun code => ?_) fun _ _ => trivial
  show "```".toList.map id ++ escapeHtml code ++ "```".toList.map id =
    ("```".toList.map id ++ code ++ "```".toList.map id).flatMap fun c => escapeHtml [c]
  rw [List.flatMap_append, List.flatMap_append, ← escapeHtml_eq code]
  rfl

theorem takeOut_letters (n : Nat) (w : List Char) (l : List (Char ⊕ List Char)) :
    (takeOut n (w.map .inl ++ l)).1 = w ++ (takeOut n l).1 := by
  induction w with
  | nil => rfl
  | cons c w ih => exact congrArg (c :: ·) ih

/-- What is outside the fences, with placeholders. -/
theorem takeOut_escape (n : Nat) (l : List (Char ⊕ List Char)) :
    (takeOut n (l.flatMap (Sum.elim (fun c => (escapeHtml [c]).map .inl)
      fun code => [.inr (escapeHtml code)]))).1 = fill token (outsideFrom n l) := by
  induction l generalizing n with
  | nil => rfl
  | cons x l ih =>
    cases x with
    | inl c =>
      rw [List.flatMap_cons, Sum.elim_inl, takeOut_letters, ih, outsideFrom, fill_append, fill_chars]
    | inr code =>
      rw [List.flatMap_cons, Sum.elim_inr, outsideFrom, fill_cons, ← ih]
      rfl

theorem blocks_escape (l : List (Char ⊕ List Char)) :
    ((l.flatMap (Sum.elim (fun c => (escapeHtml [c]).map .inl)
      fun code => [.inr (escapeHtml code)])).filterMap Sum.getRight?).map codeBlock =
        (l.filterMap Sum.getRight?).map block := by
  induction l with
  | nil => rfl
  | cons x l ih =>
    rw [List.flatMap_cons, List.filterMap_append, List.map_append, ih]
    cases x with
    | inl c =>
      have hnone : ((escapeHtml [c]).map Sum.inl).filterMap
          (Sum.getRight? : Char ⊕ List Char → _) = [] := by
        rw [List.filterMap_map]
        exact List.filterMap_eq_nil_iff.mpr fun _ _ => rfl
      rw [Sum.elim_inl, hnone, List.map_nil, List.nil_append, List.filterMap_cons_none rfl]
    | inr code => rfl

theorem letters_outsideFrom {n : Nat} {l : List (Char ⊕ List Char)} {c : Char}
    (h : .char c ∈ outsideFrom n l) : Escaped c := by
  induction l generalizing n with
  | nil => cases h
  | cons x l ih =>
    cases x with
    | inl d =>
      rcases List.mem_append.mp h with h | h
      · obtain ⟨c', hc', heq⟩ := List.mem_map.mp h
        cases heq
        exact escaped_of_mem hc'
      · exact ih h
    | inr code =>
      rcases List.mem_cons.mp h with h | h
      · cases h
      · exact ih h

theorem quiet_outsideFrom (n : Nat) (l : List (Char ⊕ List Char)) :
    ∀ a ∈ outsideFrom n l, Quiet syms (Sym.text token) a := by
  induction l generalizing n with
  | nil => intro a ha; cases ha
  | cons x l ih =>
    intro a ha
    cases x with
    | inl c =>
      rcases List.mem_append.mp ha with ha | ha
      · obtain ⟨c', -, rfl⟩ := List.mem_map.mp ha
        exact Or.inl ⟨c', rfl⟩
      · exact ih n a ha
    | inr code =>
      rcases List.mem_cons.mp ha with rfl | ha
      · exact Or.inr (token_neutral n)
      · exact ih (n + 1) a ha

/-- **The page is the skeleton with placeholders, into which the blocks are put back.** By
`rules_expand`, as a placeholder is a neutral word. -/
theorem renderMarkdown_eq (md : List Char) : renderMarkdown md =
    putBack 0 ((contents md).map block) (fill token (skeleton md)) := by
  have hrules : rules plain (fill token (outside md)) = fill token (skeleton md) :=
    (rules_expand syms_stand (quiet_outsideFrom 0 _)).symm
  have hsafe : (takeOut 0 ((fence (letters Char)).scan (escapeHtml md))).1 =
      fill token (outside md) := by
    rw [scan_escape]
    exact takeOut_escape 0 _
  have hblocks : (takeOut 0 ((fence (letters Char)).scan (escapeHtml md))).2 =
      (contents md).map block := by
    rw [takeOut_snd, scan_escape]
    exact blocks_escape _
  unfold renderMarkdown
  show putBack 0 (takeOut 0 _).2 (rules plain (takeOut 0 _).1) = _
  rw [hsafe, hblocks, hrules]

/-! ## The order of the fences -/

theorem fences_append (s t : List Sym) : fences (s ++ t) = fences s ++ fences t :=
  List.filterMap_append ..

theorem fences_chars (w : List Char) : fences (w.map .char) = [] := by
  unfold fences
  rw [List.filterMap_map]
  exact List.filterMap_eq_nil_iff.mpr fun _ _ => rfl

theorem fences_outsideFrom (n : Nat) (l : List (Char ⊕ List Char)) :
    fences (outsideFrom n l) = List.range' n (l.filterMap Sum.getRight?).length := by
  induction l generalizing n with
  | nil => rfl
  | cons x l ih =>
    cases x with
    | inl c =>
      rw [outsideFrom, fences_append, fences_chars, ih]
      rfl
    | inr code =>
      show n :: fences (outsideFrom (n + 1) l) = _
      rw [ih]
      rfl

theorem fences_emphasis {mark : List Char} {hmark : mark ≠ []} {ok : Char → Bool} (m m' : Markup)
    (s : List Sym) : fences ((emphasis syms.toAlphabet mark hmark ok).replaceAll
      (fun x => syms.mark m ++ x ++ syms.mark m') s) = fences s := by
  have hmatch : ∀ x, fences (syms.mark m ++ x ++ syms.mark m') =
      fences ((emphasis syms.toAlphabet mark hmark ok).text x) := by
    intro x
    show fences (syms.mark m ++ x ++ syms.mark m') =
      fences (mark.map .char ++ x ++ mark.map .char)
    simp only [fences_append, fences_chars]
    rfl
  exact (Pattern.filterMap_replaceAll fun x => congrArg List.length (hmatch x)).mpr
    fun x _ => hmatch x

theorem fences_emphasized (s : List Sym) : fences (emphasized syms s) = fences s := by
  unfold emphasized code Markdown.em strong
  rw [fences_emphasis, fences_emphasis, fences_emphasis]

theorem fences_breaks (s : List Sym) : fences (breaks syms s) = fences s := by
  have hmatch : ∀ x, fences (syms.mark .br) = fences ((newline syms.toAlphabet).text x) :=
    fun _ => rfl
  exact (Pattern.filterMap_replaceAll fun x => congrArg List.length (hmatch x)).mpr
    fun x _ => hmatch x

theorem fences_linkPattern (x : List Sym × List Sym) :
    fences ((linkPattern syms.toAlphabet).text x) = fences x.1 ++ fences x.2 := by
  show fences ("[".toList.map .char ++ x.1 ++ "](".toList.map .char ++ x.2 ++
    ")".toList.map .char) = _
  simp only [fences_append, fences_chars, List.nil_append, List.append_nil]

theorem fences_link (x : List Sym × List Sym) :
    fences (syms.link x.2 ++ x.1 ++ syms.mark .aEnd) = fences x.2 ++ fences x.1 := by
  have hstart : fences [Sym.linkStart] = [] := rfl
  have hrest : fences [Sym.linkRest] = [] := rfl
  have hend : fences [Sym.mark .aEnd] = [] := rfl
  rw [syms_link, syms_mark]
  simp only [fences_append, hstart, hrest, hend, List.nil_append, List.append_nil]

theorem append_comm_iff {l l' : List Nat} (h : (l ++ l').Nodup) :
    l' ++ l = l ++ l' ↔ l = [] ∨ l' = [] := by
  constructor
  · intro heq
    cases l with
    | nil => exact Or.inl rfl
    | cons i l =>
      cases l' with
      | nil => exact Or.inr rfl
      | cons j l' =>
        -- both would be first
        obtain ⟨rfl, -⟩ := List.cons.inj heq
        exact absurd List.mem_cons_self ((List.nodup_cons.mp h).1 <| List.mem_append_right _ ·)
  · rintro (rfl | rfl)
    · rw [List.append_nil, List.nil_append]
    · rw [List.append_nil, List.nil_append]

/-- **The links leave the order of the fences exactly when none has fences on both sides.** -/
theorem fences_links_iff {s : List Sym} (hs : (fences s).Nodup) : fences (links syms s) = fences s ↔
    ∀ x, .inr x ∈ (linkPattern syms.toAlphabet).scan s → fences x.1 = [] ∨ fences x.2 = [] := by
  have hlen : ∀ x : List Sym × List Sym, (fences (syms.link x.2 ++ x.1 ++ syms.mark .aEnd)).length =
      (fences ((linkPattern syms.toAlphabet).text x)).length := by
    intro x
    rw [fences_link, fences_linkPattern, List.length_append, List.length_append, Nat.add_comm]
  refine (Pattern.filterMap_replaceAll hlen).trans (forall_congr' fun x => forall_congr' fun hx => ?_)
  show fences (syms.link x.2 ++ x.1 ++ syms.mark .aEnd) =
    fences ((linkPattern syms.toAlphabet).text x) ↔ _
  obtain ⟨s₁, s₂, hs₁₂⟩ := Pattern.text_infix hx
  have hnodup : (fences x.1 ++ fences x.2).Nodup := by
    rw [← hs₁₂, fences_append, fences_append, fences_linkPattern] at hs
    exact (List.nodup_append.mp (List.nodup_append.mp hs).1).2.1
  rw [fences_link, fences_linkPattern]
  exact append_comm_iff hnodup

theorem order_iff (md : List Char) :
    fences (skeleton md) = List.range (contents md).length ↔ Uncrossed md := by
  have houtside : fences (outside md) = List.range (contents md).length := by
    rw [List.range_eq_range']
    exact fences_outsideFrom 0 _
  have hemphasized : fences (emphasized syms (outside md)) = List.range (contents md).length := by
    rw [fences_emphasized, houtside]
  have hskeleton : fences (skeleton md) = fences (links syms (emphasized syms (outside md))) :=
    fences_breaks _
  have hnodup : (fences (emphasized syms (outside md))).Nodup := by
    rw [hemphasized]
    exact List.nodup_range
  rw [hskeleton, ← hemphasized]
  exact fences_links_iff hnodup

/-! ## Closing tags

The first `<` of a rendered text is of an opening tag, or of a line break. -/

/-- The first `<` is not of a closing tag. A block that is put in at a wrong place begins with an
opening one. -/
inductive Opening : List Char → Prop
  | nil : Opening []
  | tag {d : Char} (hd : d ≠ '/') (s : List Char) : Opening ('<' :: d :: s)
  | char {c : Char} {s : List Char} (hc : c ≠ '<') (hs : Opening s) : Opening (c :: s)

theorem Opening.append {s t : List Char} (hs : Opening s) (ht : Opening t) : Opening (s ++ t) := by
  induction hs with
  | nil => exact ht
  | tag hd s => exact .tag hd (s ++ t)
  | char hc hs ih => exact .char hc ih

theorem opening_of_notMem {s : List Char} (h : '<' ∉ s) : Opening s := by
  induction s with
  | nil => exact .nil
  | cons c s ih =>
    have hc : c ≠ '<' := fun hc => h (hc ▸ List.mem_cons_self)
    exact .char hc (ih fun hs => h (List.mem_cons_of_mem c hs))

/-- What opens a tag; a block does. -/
def Sym.opens : Sym → Bool
  | .mark .strong | .mark .em | .mark .code | .mark .br | .linkStart | .fence _ => true
  | _ => false

/-- The first symbol that is not a letter opens a tag. -/
inductive Begins : List Sym → Prop
  | nil : Begins []
  | tag {a : Sym} (ha : a.opens = true) (s : List Sym) : Begins (a :: s)
  | char (c : Char) {s : List Sym} (hs : Begins s) : Begins (.char c :: s)

theorem Begins.of_append {s t : List Sym} (h : Begins (s ++ t)) : Begins s := by
  induction s with
  | nil => exact .nil
  | cons a s ih =>
    cases h with
    | tag ha => exact .tag ha s
    | char c hs => exact .char c (ih hs)

theorem begins_replaceAll {β : Type} {p : Pattern Sym β} {r : β → List Sym}
    (hr : ∀ b, ∃ a l, r b = a :: l ∧ a.opens = true) {s : List Sym} (hs : Begins s) :
    Begins (p.replaceAll r s) := by
  induction s using Pattern.scan_induct p with
  | nil => exact .nil
  | miss a s hmiss ih =>
    rw [Pattern.replaceAll_miss hmiss]
    cases hs with
    | tag ha => exact .tag ha _
    | char c hs => exact .char c (ih hs)
  | hit b t hhit ih =>
    rw [Pattern.replaceAll_hit hhit]
    obtain ⟨a, l, hb, ha⟩ := hr b
    rw [hb]
    exact .tag ha _

theorem begins_outsideFrom (n : Nat) (l : List (Char ⊕ List Char)) : Begins (outsideFrom n l) := by
  have hchars : ∀ (w : List Char) (s : List Sym), Begins s → Begins (w.map .char ++ s) := by
    intro w s hs
    induction w with
    | nil => exact hs
    | cons c w ih => exact .char c ih
  induction l generalizing n with
  | nil => exact .nil
  | cons x l ih =>
    cases x with
    | inl c => exact hchars _ _ (ih n)
    | inr code => exact .tag rfl _

theorem begins_emphasis {mark : List Char} {hmark : mark ≠ []} {ok : Char → Bool} {m : Markup}
    (hm : (Sym.mark m).opens = true) (m' : Markup) {s : List Sym} (hs : Begins s) :
    Begins ((emphasis syms.toAlphabet mark hmark ok).replaceAll
      (fun x => syms.mark m ++ x ++ syms.mark m') s) :=
  begins_replaceAll (fun x => ⟨Sym.mark m, x ++ [Sym.mark m'], rfl, hm⟩) hs

theorem begins_links {s : List Sym} (hs : Begins s) : Begins (links syms s) := by
  refine begins_replaceAll (fun x => ?_) hs
  rw [syms_link, List.append_assoc, List.append_assoc, List.append_assoc]
  exact ⟨_, _, rfl, rfl⟩

theorem begins_breaks {s : List Sym} (hs : Begins s) : Begins (breaks syms s) := by
  refine begins_replaceAll (fun _ => ?_) hs
  rw [syms_mark]
  exact ⟨_, _, rfl, rfl⟩

theorem begins_skeleton (md : List Char) : Begins (skeleton md) := by
  have hstrong : Begins (strong syms (outside md)) :=
    begins_emphasis rfl .strongEnd (begins_outsideFrom 0 _)
  have hem : Begins (Markdown.em syms (strong syms (outside md))) := begins_emphasis rfl .emEnd hstrong
  have hcode : Begins (emphasized syms (outside md)) := begins_emphasis rfl .codeEnd hem
  exact begins_breaks (begins_links hcode)

theorem letters_skeleton {md : List Char} {c : Char} (h : .char c ∈ skeleton md) : Escaped c := by
  have hmark : ∀ m, .char c ∉ syms.mark m := by
    intro m hm
    cases List.mem_singleton.mp hm
  rcases mem_rules h with h | ⟨m, h⟩ | ⟨u, hu, h⟩
  · exact letters_outsideFrom h
  · exact absurd h (hmark m)
  · have hc : .char c ∈ u := by
      simpa [syms] using h
    rcases mem_emphasized (hu.symbols hc) with h | ⟨m, h⟩
    · exact letters_outsideFrom h
    · exact absurd h (hmark m)

/-- What begins with an opening symbol is text whose first `<` is of such a tag. -/
theorem opening_fill (codes : List (List Char)) {s : List Sym} (hs : Begins s)
    (hletters : ∀ c, .char c ∈ s → Escaped c) : Opening (fill (whole codes) s) := by
  induction hs with
  | nil => exact .nil
  | tag ha s =>
    rename_i a
    rw [fill_cons]
    cases a with
    | char c => cases ha
    | mark m => cases m with
      | strong => exact .tag (by decide) _
      | em => exact .tag (by decide) _
      | code => exact .tag (by decide) _
      | br => exact .tag (by decide) _
      | _ => cases ha
    | linkStart => exact .tag (by decide) _
    | linkRest => cases ha
    | fence i => exact .tag (by decide) _
  | char c hs ih =>
    rw [fill_cons]
    refine .char (hletters c List.mem_cons_self).lt ?_
    exact ih fun d hd => hletters d (List.mem_cons_of_mem _ hd)

/-! ## A wrong page stays wrong -/

/-- The texts differ at a letter, and where `t` has a tag there it is a closing one. This is kept
when a block is put into `s`, and says that the two are not equal. -/
def Differs (s t : List Char) : Prop :=
  ∃ c a b x y, s = c ++ a :: x ∧ t = c ++ b :: y ∧ a ≠ b ∧ (b = '<' → ∃ y', y = '/' :: y')

theorem Differs.ne {s t : List Char} (h : Differs s t) : s ≠ t := by
  obtain ⟨c, a, b, x, y, rfl, rfl, hab, -⟩ := h
  intro heq
  exact hab (List.cons.inj (List.append_cancel_left heq)).1

theorem Differs.append_left {s t : List Char} (h : Differs s t) (w : List Char) :
    Differs (w ++ s) (w ++ t) := by
  obtain ⟨c, a, b, x, y, rfl, rfl, hab, hb⟩ := h
  exact ⟨w ++ c, a, b, x, y, (List.append_assoc ..).symm, (List.append_assoc ..).symm, hab, hb⟩

theorem substitute_block (matched before after code : List Char) :
    ∃ r, substitute matched before after (block code) = '<' :: 'p' :: r := by
  unfold block
  rw [substitute_codeBlock]
  exact ⟨_, rfl⟩

/-- A block differs from what is no tag, and from a closing one. -/
theorem differs_block (c z : List Char) {b : Char} {y : List Char}
    (hb : b = '<' → ∃ y', y = '/' :: y') : Differs (c ++ '<' :: 'p' :: z) (c ++ b :: y) := by
  by_cases hlt : b = '<'
  · obtain ⟨y', rfl⟩ := hb hlt
    subst hlt
    refine ⟨c ++ ['<'], 'p', '/', z, y', ?_, ?_, by decide, fun h => by cases h⟩
    · rw [List.append_assoc]
      rfl
    · rw [List.append_assoc]
      rfl
  · exact ⟨c, '<', b, _, y, rfl, rfl, fun h => hlt h.symm, fun h => absurd h hlt⟩

/-- **The texts still differ when a block is put in.** -/
theorem Differs.replaceFirst {s t : List Char} (h : Differs s t) (n : Nat) (code : List Char) :
    Differs (replaceFirst (token n) (block code) s) t := by
  unfold Markdown.replaceFirst
  cases hsplit : splitFirst (token n) s with
  | none => exact h
  | some z =>
    obtain ⟨before, after⟩ := z
    obtain ⟨c, a, b, x, y, rfl, rfl, hab, hb⟩ := h
    obtain ⟨hocc, -⟩ := splitFirst_some (token_ne_nil n) hsplit
    obtain ⟨r, hr⟩ := substitute_block (token n) before after code
    obtain ⟨l, hl⟩ := token_eq n
    show Differs (before ++ substitute (token n) before after (block code) ++ after) (c ++ b :: y)
    rw [hr, List.append_assoc]
    rw [hl, List.append_assoc] at hocc
    rcases List.append_eq_append_iff.mp hocc with ⟨d, rfl, hd⟩ | ⟨d, rfl, hd⟩
    · cases d with
      | nil =>
        rw [List.append_nil]
        exact differs_block c (r ++ after) hb
      | cons a' d =>
        -- behind the letter
        obtain ⟨rfl, -⟩ := List.cons.inj hd
        refine ⟨c, a, b, d ++ '<' :: 'p' :: r ++ after, y, ?_, rfl, hab, hb⟩
        simp
    · rw [List.append_assoc]
      cases d with
      | nil => exact differs_block before (r ++ after) hb
      | cons a' d =>
        -- in front of it, where both have the low line of the placeholder
        obtain ⟨rfl, -⟩ := List.cons.inj hd
        exact differs_block before (r ++ after) fun h => by cases h

theorem Differs.putBack {s t : List Char} (h : Differs s t) (n : Nat) (codes : List (List Char)) :
    Differs (putBack n (codes.map block) s) t := by
  induction codes generalizing n s with
  | nil => exact h
  | cons code codes ih => exact ih (h.replaceFirst n code) (n + 1)

/-- Two texts in front of closing tags, the second of which has no tags. -/
theorem differs_of_ne {s t : List Char} (hs : Opening s) (ht : '<' ∉ t) (hne : s ≠ t)
    (x y : List Char) : Differs (s ++ '<' :: '/' :: x) (t ++ '<' :: '/' :: y) := by
  have hfirst : ∀ {d : Char} {t : List Char}, '<' ∉ d :: t → d ≠ '<' :=
    fun ht h => ht (h ▸ List.mem_cons_self)
  induction hs generalizing t with
  | nil =>
    cases t with
    | nil => exact absurd rfl hne
    | cons d t => exact ⟨[], '<', d, _, _, rfl, rfl, (hfirst ht).symm, fun h => absurd h (hfirst ht)⟩
  | tag hd s =>
    cases t with
    | nil => exact ⟨['<'], _, '/', _, _, rfl, rfl, hd, fun h => by cases h⟩
    | cons d t => exact ⟨[], '<', d, _, _, rfl, rfl, (hfirst ht).symm, fun h => absurd h (hfirst ht)⟩
  | @char c s hc hs ih =>
    cases t with
    | nil => exact ⟨[], c, '<', _, _, rfl, rfl, hc, fun _ => ⟨y, rfl⟩⟩
    | cons d t =>
      by_cases hcd : c = d
      · subst hcd
        have hrest : s ≠ t := fun h => hne (congrArg (c :: ·) h)
        exact (ih (fun h => ht (List.mem_cons_of_mem c h)) hrest).append_left [c]
      · exact ⟨[], c, d, _, _, rfl, rfl, hcd, fun h => absurd h (hfirst ht)⟩

/-- A block whose patterns do not say what they are. -/
theorem differs_substitute {matched before after code : List Char} (hmatched : '<' ∉ matched)
    (hbefore : Opening before) (hne : substitute matched before after (block code) ≠ block code)
    (x y : List Char) :
    Differs (substitute matched before after (block code) ++ x) (block code ++ y) := by
  have hcode : ∀ c ∈ escapeHtml code, Escaped c := fun c hc => escaped_of_mem hc
  have hopening : ∀ l : List Part, l ⊆ parts (trim (escapeHtml code)) →
      Opening (l.flatMap (Part.text matched before after)) := by
    intro l hl
    induction l with
    | nil => exact .nil
    | cons p l ih =>
      obtain ⟨hp, hl⟩ := List.cons_subset.mp hl
      rw [List.flatMap_cons]
      refine Opening.append ?_ (ih hl)
      rcases part_codeBlock hcode hp with ⟨c, hc, rfl⟩ | rfl | rfl
      · exact .char (hcode c hc).lt .nil
      · exact opening_of_notMem hmatched
      · exact hbefore
  have htrim : '<' ∉ trim (escapeHtml code) := fun h => (hcode _ (mem_of_mem_trim h)).lt rfl
  have hblock : block code = blockStart ++ trim (escapeHtml code) ++ blockEnd := rfl
  have hparts : (parts (trim (escapeHtml code))).flatMap (Part.text matched before after) ≠
      trim (escapeHtml code) := by
    intro heq
    refine hne ?_
    rw [hblock, show blockStart ++ trim (escapeHtml code) ++ blockEnd =
      codeBlock (escapeHtml code) from rfl, substitute_codeBlock, heq]
    rfl
  have hsub : substitute matched before after (block code) = blockStart ++
      (parts (trim (escapeHtml code))).flatMap (Part.text matched before after) ++ blockEnd :=
    substitute_codeBlock matched before after (escapeHtml code)
  rw [hsub, hblock]
  simp only [List.append_assoc]
  exact (differs_of_ne (hopening _ fun _ h => h) htrim hparts _ _).append_left blockStart

/-! ## One block is put back -/

/-- What is in the place of a fence when `k` blocks are back. -/
def hole (codes : List (List Char)) (k i : Nat) : List Char := if i < k then whole codes i else token i

/-- The text on both sides of a fence, when the fences are in order. -/
theorem split_fence {s : List Sym} {k n : Nat} (hs : fences s = List.range n) (hk : k < n) :
    s = front k s ++ .fence k :: behind k s ∧ (∀ i ∈ fences (front k s), i < k) ∧
      ∀ i ∈ fences (behind k s), k < i := by
  have hmem : .fence k ∈ s := by
    rw [← mem_fences, hs]
    exact List.mem_range.mpr hk
  obtain ⟨l, l', rfl, hnot⟩ := List.eq_append_cons_of_mem hmem
  have hother : ∀ a ∈ l, decide (a ≠ Sym.fence k) = true :=
    fun a ha => decide_eq_true fun h => hnot (h ▸ ha)
  have hfront : front k (l ++ .fence k :: l') = l := by
    unfold front
    rw [List.takeWhile_append_of_pos hother, List.takeWhile_cons_of_neg (by simp), List.append_nil]
  have hbehind : behind k (l ++ .fence k :: l') = l' := by
    unfold behind
    rw [List.dropWhile_append_of_pos hother, List.dropWhile_cons_of_neg (by simp), List.tail_cons]
  rw [hfront, hbehind]
  have hsorted : (fences l ++ k :: fences l').Pairwise (· < ·) := by
    have heq : fences l ++ k :: fences l' = fences (l ++ .fence k :: l') :=
      (fences_append l (.fence k :: l')).symm
    rw [heq, hs]
    exact List.pairwise_lt_range
  obtain ⟨-, hsecond, hcross⟩ := List.pairwise_append.mp hsorted
  exact ⟨rfl, fun i hi => hcross i hi k List.mem_cons_self,
    fun i hi => (List.pairwise_cons.mp hsecond).1 i hi⟩

section Step

variable {codes : List (List Char)} {s : List Sym} {k : Nat}
  (hs : fences s = List.range codes.length) (hk : k < codes.length)

include hs hk

theorem fill_hole : fill (hole codes k) s = fill (whole codes) (front k s) ++ token k ++
    fill token (behind k s) := by
  obtain ⟨hsplit, hfront, hbehind⟩ := split_fence hs hk
  have h₁ : fill (hole codes k) (front k s) = fill (whole codes) (front k s) :=
    fill_congr fun i hi => if_pos (hfront i hi)
  have h₂ : fill (hole codes k) (behind k s) = fill token (behind k s) :=
    fill_congr fun i hi => if_neg (hbehind i hi).le.not_gt
  have hk : hole codes k k = token k := if_neg (lt_irrefl k)
  conv_lhs => rw [hsplit]
  rw [fill_append, fill_cons, h₁, h₂, Sym.text, hk, List.append_assoc]

theorem fill_hole_succ : fill (hole codes (k + 1)) s = fill (whole codes) (front k s) ++
    whole codes k ++ fill token (behind k s) := by
  obtain ⟨hsplit, hfront, hbehind⟩ := split_fence hs hk
  have h₁ : fill (hole codes (k + 1)) (front k s) = fill (whole codes) (front k s) :=
    fill_congr fun i hi => if_pos (Nat.lt_succ_of_lt (hfront i hi))
  have h₂ : fill (hole codes (k + 1)) (behind k s) = fill token (behind k s) :=
    fill_congr fun i hi => if_neg (Nat.succ_le_of_lt (hbehind i hi)).not_gt
  have hk : hole codes (k + 1) k = whole codes k := if_pos (Nat.lt_succ_self k)
  conv_lhs => rw [hsplit]
  rw [fill_append, fill_cons, h₁, h₂, Sym.text, hk, List.append_assoc]

/-- **An undisturbed block is put in the place of its fence.** -/
theorem replaceFirst_undisturbed (h : Undisturbed codes s k) :
    replaceFirst (token k) (whole codes k) (fill (hole codes k) s) = fill (hole codes (k + 1)) s := by
  have hsplit := splitFirst_append (token_ne_nil k) h.found (fill token (behind k s))
  rw [fill_hole hs hk, fill_hole_succ hs hk]
  unfold replaceFirst
  rw [hsplit]
  show _ ++ substitute _ _ _ _ ++ _ = _
  rw [h.literal]

/-- **A disturbed one makes the page differ.** -/
theorem replaceFirst_disturbed (hbegins : Begins s) (hletters : ∀ c, .char c ∈ s → Escaped c)
    (h : ¬ Undisturbed codes s k) :
    Differs (replaceFirst (token k) (whole codes k) (fill (hole codes k) s))
      (fill (whole codes) s) := by
  obtain ⟨hsplit, -, -⟩ := split_fence hs hk
  have hwhole : fill (whole codes) s = fill (whole codes) (front k s) ++
      (whole codes k ++ fill (whole codes) (behind k s)) := by
    conv_lhs => rw [hsplit]
    rw [fill_append, fill_cons]
    rfl
  rw [fill_hole hs hk, hwhole]
  unfold replaceFirst
  by_cases hfound : splitFirst (token k) (fill (whole codes) (front k s) ++ token k) =
      some (fill (whole codes) (front k s), [])
  · -- put where it belongs, but not as it is
    have hpatterns := fun hliteral => h ⟨hfound, hliteral⟩
    rw [splitFirst_append (token_ne_nil k) hfound]
    show Differs (_ ++ substitute _ _ _ _ ++ _) _
    rw [hsplit] at hbegins hletters
    have hopening := opening_fill codes hbegins.of_append
      fun c hc => hletters c (List.mem_append_left _ hc)
    have htoken : '<' ∉ token k := fun hc => (token_escaped hc).lt rfl
    rw [List.append_assoc]
    exact (differs_substitute htoken hopening hpatterns _ _).append_left _
  · -- put at an earlier text, which stays on the page
    obtain ⟨before, after, hearlier, hlt⟩ :=
      splitFirst_earlier (token_ne_nil k) hfound (fill token (behind k s))
    obtain ⟨hocc, -⟩ := splitFirst_some (token_ne_nil k) hearlier
    obtain ⟨l, hl⟩ := token_eq k
    obtain ⟨r, hr⟩ := substitute_block (token k) before after (codes.getD k [])
    rw [hearlier]
    show Differs (before ++ substitute (token k) before after (whole codes k) ++ after) _
    rw [whole, hr, List.append_assoc]
    rw [List.append_assoc, List.append_assoc] at hocc
    rcases List.append_eq_append_iff.mp hocc with ⟨d, rfl, -⟩ | ⟨d, hd, hrest⟩
    · rw [List.length_append] at hlt
      omega
    · cases d with
      | nil =>
        rw [hd, List.append_nil] at hlt
        omega
      | cons a d =>
        have hlow : a = '_' := by
          rw [hl] at hrest
          exact (List.cons.inj hrest).1.symm
        rw [hd, hlow, List.append_assoc]
        exact differs_block before (r ++ after) fun h => by cases h

end Step

/-! ## The loop over the blocks -/

section Loop

variable {codes : List (List Char)} {s : List Sym} (hs : fences s = List.range codes.length)
  (hbegins : Begins s) (hletters : ∀ c, .char c ∈ s → Escaped c)

include hs hbegins hletters

/-- From the `k`th block on, the loop makes the page exactly when no step is disturbed. By induction
from the last block: behind a disturbed step the texts differ for good. -/
theorem putBack_iff {k : Nat} (hk : k ≤ codes.length) :
    putBack k ((codes.drop k).map block) (fill (hole codes k) s) = fill (whole codes) s ↔
      ∀ j, k ≤ j → j < codes.length → Undisturbed codes s j := by
  induction hd : codes.length - k generalizing k with
  | zero =>
    have hlen : k = codes.length := by omega
    subst hlen
    have hall : fill (hole codes codes.length) s = fill (whole codes) s := fill_congr fun i hi => by
      rw [hs, List.mem_range] at hi
      exact if_pos hi
    rw [List.drop_length]
    exact ⟨fun _ j hj hlt => absurd hj (by omega), fun _ => hall⟩
  | succ d ih =>
    have hlt : k < codes.length := by omega
    have hblock : block codes[k] = whole codes k := by
      have hget : codes.getD k [] = codes[k] := by simp [hlt]
      unfold whole
      rw [hget]
    rw [List.drop_eq_getElem_cons hlt, List.map_cons, Markdown.putBack]
    by_cases hstep : Undisturbed codes s k
    · rw [hblock, replaceFirst_undisturbed hs hlt hstep, ih hlt (by omega)]
      constructor
      · intro h j hj hjlt
        rcases eq_or_lt_of_le hj with rfl | hj
        · exact hstep
        · exact h j hj hjlt
      · exact fun h j hj => h j (by omega)
    · have hdiffers := replaceFirst_disturbed hs hlt hbegins hletters hstep
      rw [← hblock] at hdiffers
      constructor
      · exact fun h => absurd h (hdiffers.putBack (k + 1) (codes.drop (k + 1))).ne
      · exact fun h => absurd (h k le_rfl hlt) hstep

end Loop

/-! ## Blocks without patterns -/

theorem infix_of_append {d : Char} {w t : List Char} (hw : '$' ∉ w) (h : ['$', d] <:+: w ++ t) :
    ['$', d] <:+: t := by
  induction w with
  | nil => exact h
  | cons c w ih =>
    rw [List.mem_cons, not_or] at hw
    rcases List.infix_cons_iff.mp h with hprefix | hin
    · exact absurd (List.cons_prefix_cons.mp hprefix).1 hw.1
    · exact ih hw.2 hin

/-- A `$` of an escaped text is one of the text, and the letter behind it begins what the letter
behind that one is written as. -/
theorem pair_escape {d : Char} {code : List Char} (h : ['$', d] <:+: escapeHtml code) :
    ∃ d', ['$', d'] <:+: code ∧ (escapeHtml [d']).head? = some d := by
  rw [escapeHtml_eq] at h
  induction code with
  | nil => exact absurd (List.infix_nil.mp h) (List.cons_ne_nil _ _)
  | cons c code ih =>
    have hbehind : ['$', d] <:+: code.flatMap (fun c => escapeHtml [c]) →
        ∃ d', ['$', d'] <:+: c :: code ∧ (escapeHtml [d']).head? = some d := by
      intro hin
      obtain ⟨d', hcode, hd'⟩ := ih hin
      exact ⟨d', List.infix_cons hcode, hd'⟩
    rw [List.flatMap_cons] at h
    by_cases hc : c = '$'
    · subst hc
      have hdollar : escapeHtml ['$'] = ['$'] := rfl
      rw [hdollar, List.singleton_append] at h
      rcases List.infix_cons_iff.mp h with hprefix | hin
      · cases code with
        | nil => exact absurd (List.cons_prefix_cons.mp hprefix).2 (by simp)
        | cons d' code =>
          refine ⟨d', ⟨[], code, rfl⟩, ?_⟩
          obtain ⟨-, rest, hrest⟩ := List.cons_prefix_cons.mp hprefix
          have hne : escapeHtml [d'] ≠ [] := by
            by_cases htick : d' = '`'
            · subst htick
              exact List.cons_ne_nil _ _
            · exact (escape_letter (by decide) htick).1
          rw [List.flatMap_cons] at hrest
          have hhead := congrArg List.head? hrest
          rw [List.head?_append_of_ne_nil _ hne] at hhead
          exact hhead.symm
      · exact hbehind hin
    · exact hbehind (infix_of_append (escape_letter (by decide) hc).2 h)

/-- **A block is put back as it is** where nothing in it looks like a pattern once it is escaped: no
`$` stands before another one, before a backtick or before a letter that is escaped, whose reference
begins with `&`. -/
theorem substitute_of_plain {code : List Char}
    (h : ∀ d ∈ ['$', '`', '&', '<', '>', '"', '\''], ¬ ['$', d] <:+: code)
    (matched before after : List Char) :
    substitute matched before after (block code) = block code := by
  refine substitute_plain (fun d hd hin => ?_) matched before after
  obtain ⟨d', hcode, hhead⟩ := pair_escape hin
  refine h d' ?_ hcode
  by_cases hescaped : d' ∈ ['&', '<', '>', '"', '\'']
  · exact List.mem_cons_of_mem _ (List.mem_cons_of_mem _ hescaped)
  · rw [escape_other hescaped] at hhead
    obtain rfl := Option.some_inj.mp hhead
    simp only [List.mem_cons, List.not_mem_nil, or_false] at hd
    rcases hd with rfl | rfl | rfl | rfl
    · decide
    · decide
    · decide
    · decide

/-- A block without patterns is undisturbed if its placeholder is found; a condition on the letters
of the block in the message. -/
theorem undisturbed_of_plain {codes : List (List Char)} {s : List Sym} {k : Nat}
    (hfound : splitFirst (token k) (fill (whole codes) (front k s) ++ token k) =
      some (fill (whole codes) (front k s), []))
    (hplain : ∀ d ∈ ['$', '`', '&', '<', '>', '"', '\''], ¬ ['$', d] <:+: codes.getD k []) :
    Undisturbed codes s k :=
  ⟨hfound, substitute_of_plain hplain _ _ _⟩

/-- **The blocks are on the page, in order and as they are, exactly when no link has fences on both
sides and no block is disturbed when it is put back.** For every message. For a block without
patterns the second is only that no earlier text looks like its placeholder
(`undisturbed_of_plain`). -/
theorem preserved_iff (md : List Char) : Preserved md ↔ Uncrossed md ∧
    ∀ k < (contents md).length, Undisturbed (contents md) (skeleton md) k := by
  have hloop : fences (skeleton md) = List.range (contents md).length →
      (renderMarkdown md = fill (whole (contents md)) (skeleton md) ↔
        ∀ k < (contents md).length, Undisturbed (contents md) (skeleton md) k) := by
    intro hs
    have h := putBack_iff hs (begins_skeleton md) (fun c => letters_skeleton) (Nat.zero_le _)
    have hnone : fill (hole (contents md) 0) (skeleton md) = fill token (skeleton md) :=
      fill_congr fun i _ => if_neg (Nat.not_lt_zero i)
    rw [List.drop_zero, hnone, ← renderMarkdown_eq] at h
    exact h.trans ⟨fun h k hk => h k (Nat.zero_le k) hk, fun h k _ hk => h k hk⟩
  rw [← order_iff]
  constructor
  · intro h
    exact ⟨h.order, (hloop h.order).mp h.text⟩
  · rintro ⟨horder, hsteps⟩
    exact ⟨horder, (hloop horder).mpr hsteps⟩

/-- A block with two dollars loses one. -/
theorem dollars_not_preserved : ¬ Preserved "```echo $$```".toList := fun h =>
  absurd h.text (by decide)

end MessagesApp.CodeBlocks
