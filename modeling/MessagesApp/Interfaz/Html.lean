import MessagesApp.Interfaz.CodeBlocks

/-!
# What a browser reads of `renderMarkdown`

The text that the rules write is letters, the tags of the markup, and the tag of each address; as
the message is escaped, no letter is a `<` or a quote. It stays so when a block is put back, but for
a block that asks for the text before its placeholder when that stands within an address: the text
has the quote in front of the address, which ends the address there, and the browser reads what
follows as attributes of the tag.

`tags` is the tokenizer of a browser, by its states, as far as tags and attributes go. `OnlyOwnTags`
asks that every tag is one of the markup's, with no attribute but those of a link to the web.

A text is `Sound` if it is good pieces. The rules write such a text (`good_rules`), and a step of
the loop keeps it if the block fits (`sound_replaceFirst`); `located` says where a placeholder can
be in it. A text is `Spoilt` if behind good pieces there is a tag with such a quote in it. A block
that does not fit leaves that (`put_before`), no step takes it away (`spoilt_replaceFirst`), and the
browser reads an attribute of another name there (`Torn.not_onlyOwnTags`). So the page has own tags
only exactly when each block fits where it is put back (`onlyOwnTags_iff`); a condition on the
message that is enough is `fits_of_noPattern`.

Comments, character references in attributes and what a browser does with the tags are left out: no
text of the page begins a comment, and a reference cannot end an attribute.
-/

set_option autoImplicit false

namespace MessagesApp.Html

open Lib Markdown

/-! ## Tags -/

/-- A tag as a tokenizer gives it out. -/
structure Tag where
  closing : Bool
  name : List Char
  attrs : List (List Char × List Char)

def Tag.add (t : Tag) (name value : List Char) : Tag := { t with attrs := t.attrs ++ [(name, value)] }

/-- Where a tokenizer is; an attribute is added to its tag when it ends. -/
inductive State
  | data
  | tagOpen
  | tagName (t : Tag)
  | beforeName (t : Tag)
  | attrName (t : Tag) (name : List Char)
  | afterName (t : Tag) (name : List Char)
  | beforeValue (t : Tag) (name : List Char)
  | quoted (t : Tag) (name value : List Char)
  | unquoted (t : Tag) (name value : List Char)
  | afterQuoted (t : Tag)

def isBlank (c : Char) : Bool := c ∈ ['\t', '\n', '\u000c', '\r', ' ']

/-- One letter, and the tag that ends with it. The states of the HTML standard for tags, attribute
names and values. -/
def step : State → Char → State × Option Tag
  | .data, c => (if c = '<' then .tagOpen else .data, none)
  | .tagOpen, c =>
      if c = '/' then (.tagName ⟨true, [], []⟩, none)
      else if c.isAlpha then (.tagName ⟨false, [c], []⟩, none)
      else (if c = '<' then .tagOpen else .data, none)
  | .tagName t, c =>
      if isBlank c || c = '/' then (.beforeName t, none)
      else if c = '>' then (.data, some t)
      else (.tagName { t with name := t.name ++ [c] }, none)
  | .beforeName t, c =>
      if isBlank c || c = '/' then (.beforeName t, none)
      else if c = '>' then (.data, some t)
      else (.attrName t [c], none)
  | .attrName t n, c =>
      if isBlank c then (.afterName t n, none)
      else if c = '/' then (.beforeName (t.add n []), none)
      else if c = '>' then (.data, some (t.add n []))
      else if c = '=' then (.beforeValue t n, none)
      else (.attrName t (n ++ [c]), none)
  | .afterName t n, c =>
      if isBlank c then (.afterName t n, none)
      else if c = '/' then (.beforeName (t.add n []), none)
      else if c = '>' then (.data, some (t.add n []))
      else if c = '=' then (.beforeValue t n, none)
      else (.attrName (t.add n []) [c], none)
  | .beforeValue t n, c =>
      if isBlank c then (.beforeValue t n, none)
      else if c = '"' then (.quoted t n [], none)
      else if c = '>' then (.data, some (t.add n []))
      else (.unquoted t n [c], none)
  | .quoted t n v, c =>
      if c = '"' then (.afterQuoted (t.add n v), none) else (.quoted t n (v ++ [c]), none)
  | .unquoted t n v, c =>
      if isBlank c then (.beforeName (t.add n v), none)
      else if c = '>' then (.data, some (t.add n v))
      else (.unquoted t n (v ++ [c]), none)
  | .afterQuoted t, c =>
      if isBlank c || c = '/' then (.beforeName t, none)
      else if c = '>' then (.data, some t)
      else (.attrName t [c], none)

/-- The tags of a text; one that does not end is none. -/
def tagsFrom (st : State) : List Char → List Tag
  | [] => []
  | c :: s => (step st c).2.toList ++ tagsFrom (step st c).1 s

/-- The tags of a text, from the state outside of any. -/
def tags (s : List Char) : List Tag := tagsFrom .data s

/-- The addresses a link may have. -/
def Web (u : List Char) : Prop := "http://".toList <+: u ∨ "https://".toList <+: u

/-- The tags of the markup. Only `a` has attributes, and its address is one of the web. -/
structure OwnTag (t : Tag) : Prop where
  name : t.name ∈ ["strong", "em", "code", "pre", "br", "a"].map String.toList
  attrs : ∀ x ∈ t.attrs, t.name = "a".toList ∧
    (x.1 = "href".toList ∧ Web x.2 ∨ x.1 = "target".toList ∨ x.1 = "rel".toList)

/-- A browser reads no tag and no attribute in the text but the markup's. -/
def OnlyOwnTags (s : List Char) : Prop := ∀ t ∈ tags s, OwnTag t

/-! ## Pieces -/

/-- What a rendered text is made of; a block is letters between `pre` and `code`. -/
inductive Piece
  | char (c : Char)
  | mark (m : Markup)
  | pre
  | preEnd
  | link (u : List Char)

def Piece.text : Piece → List Char
  | .char c => [c]
  | .mark m => m.text.toList
  | .pre => "<pre>".toList
  | .preEnd => "</pre>".toList
  | .link u => linkStart ++ u ++ linkRest

/-- Letters are letters, and an address has no quote. -/
def Piece.Ok : Piece → Prop
  | .char c => c ≠ '<' ∧ c ≠ '"'
  | .link u => '"' ∉ u ∧ Web u
  | _ => True

def write (ps : List Piece) : List Char := ps.flatMap Piece.text

def Good (ps : List Piece) : Prop := ∀ p ∈ ps, p.Ok

theorem write_append (ps qs : List Piece) : write (ps ++ qs) = write ps ++ write qs :=
  List.flatMap_append ..

theorem write_cons (p : Piece) (ps : List Piece) : write (p :: ps) = p.text ++ write ps :=
  List.flatMap_cons ..

theorem good_append {ps qs : List Piece} : Good (ps ++ qs) ↔ Good ps ∧ Good qs :=
  List.forall_mem_append

theorem good_cons {p : Piece} {ps : List Piece} : Good (p :: ps) ↔ p.Ok ∧ Good ps :=
  List.forall_mem_cons

theorem text_link (u : List Char) : (Piece.link u).text = linkStart ++ u ++ linkRest := rfl

theorem write_chars (s : List Char) : write (s.map .char) = s := by
  unfold write
  rw [List.flatMap_map]
  exact List.flatMap_singleton' s

theorem good_chars {s : List Char} (h : ∀ c ∈ s, Escaped c) : Good (s.map .char) := by
  intro p hp
  obtain ⟨c, hc, rfl⟩ := List.mem_map.mp hp
  exact ⟨(h c hc).lt, (h c hc).quote⟩

/-! ## The tags of pieces -/

theorem tagsFrom_cons (st : State) (c : Char) (s : List Char) :
    tagsFrom st (c :: s) = (step st c).2.toList ++ tagsFrom (step st c).1 s := rfl

theorem tagsFrom_quoted {t : Tag} {n v u : List Char} (hu : '"' ∉ u) (rest : List Char) :
    tagsFrom (.quoted t n v) (u ++ '"' :: rest) = tagsFrom (.afterQuoted (t.add n (v ++ u))) rest := by
  induction u generalizing v with
  | nil => rw [List.append_nil]; rfl
  | cons c u ih =>
    have hc : c ≠ '"' := fun h => hu (h ▸ List.mem_cons_self)
    rw [List.cons_append, tagsFrom_cons]
    simp only [step, hc, if_false]
    rw [ih fun h => hu (List.mem_cons_of_mem c h), List.append_assoc]
    rfl

/-- The tag of an address. -/
def linkTag (u : List Char) : Tag :=
  ⟨false, "a".toList, [("href".toList, u), ("target".toList, "_blank".toList),
    ("rel".toList, "noopener noreferrer".toList)]⟩

def markTag : Markup → Tag
  | .strong => ⟨false, "strong".toList, []⟩
  | .strongEnd => ⟨true, "strong".toList, []⟩
  | .em => ⟨false, "em".toList, []⟩
  | .emEnd => ⟨true, "em".toList, []⟩
  | .code => ⟨false, "code".toList, []⟩
  | .codeEnd => ⟨true, "code".toList, []⟩
  | .br => ⟨false, "br".toList, []⟩
  | .aEnd => ⟨true, "a".toList, []⟩

theorem ownTag_simple {closing : Bool} {name : List Char}
    (h : name ∈ ["strong", "em", "code", "pre", "br", "a"].map String.toList) :
    OwnTag ⟨closing, name, []⟩ := ⟨h, fun _ hx => by cases hx⟩

theorem ownTag_mark (m : Markup) : OwnTag (markTag m) := by
  cases m with
  | _ => exact ownTag_simple (by decide)

theorem ownTag_link {u : List Char} (h : Web u) : OwnTag (linkTag u) where
  name := show "a".toList ∈ _ by decide
  attrs := by
    intro x hx
    simp only [linkTag, List.mem_cons, List.not_mem_nil, or_false] at hx
    rcases hx with rfl | rfl | rfl
    · exact ⟨rfl, Or.inl ⟨rfl, h⟩⟩
    · exact ⟨rfl, Or.inr (Or.inl rfl)⟩
    · exact ⟨rfl, Or.inr (Or.inr rfl)⟩

theorem tagsFrom_mark (m : Markup) (rest : List Char) :
    tagsFrom .data (m.text.toList ++ rest) = markTag m :: tagsFrom .data rest := by
  cases m <;> rfl

theorem tagsFrom_link {u : List Char} (hu : '"' ∉ u) (rest : List Char) :
    tagsFrom .data (linkStart ++ u ++ linkRest ++ rest) = linkTag u :: tagsFrom .data rest := by
  rw [List.append_assoc, List.append_assoc]
  exact tagsFrom_quoted hu _

/-- **A piece is read as one own tag, or as none**, and the text goes on behind it. So good pieces
can be read one by one. -/
theorem tags_text {p : Piece} (hp : p.Ok) : ∃ ts : List Tag, (∀ t ∈ ts, OwnTag t) ∧
    ∀ rest, tagsFrom .data (p.text ++ rest) = ts ++ tagsFrom .data rest := by
  cases p with
  | char c =>
    refine ⟨[], by simp, fun rest => ?_⟩
    show tagsFrom .data (c :: rest) = _
    rw [tagsFrom_cons]
    simp only [step, hp.1, if_false]
    rfl
  | mark m => exact ⟨[markTag m], by simpa using ownTag_mark m, tagsFrom_mark m⟩
  | pre => exact ⟨[⟨false, "pre".toList, []⟩], by simpa using ownTag_simple (by decide), fun _ => rfl⟩
  | preEnd =>
    exact ⟨[⟨true, "pre".toList, []⟩], by simpa using ownTag_simple (by decide), fun _ => rfl⟩
  | link u => exact ⟨[linkTag u], by simpa using ownTag_link hp.2, tagsFrom_link hp.1⟩

theorem tags_write {ps : List Piece} (hps : Good ps) : ∃ ts : List Tag, (∀ t ∈ ts, OwnTag t) ∧
    ∀ rest, tagsFrom .data (write ps ++ rest) = ts ++ tagsFrom .data rest := by
  induction ps with
  | nil => exact ⟨[], by simp, fun _ => rfl⟩
  | cons p ps ih =>
    obtain ⟨hp, hps⟩ := good_cons.mp hps
    obtain ⟨ts, hts, hread⟩ := tags_text hp
    obtain ⟨ts', hts', hread'⟩ := ih hps
    refine ⟨ts ++ ts', List.forall_mem_append.mpr ⟨hts, hts'⟩, fun rest => ?_⟩
    rw [write_cons, List.append_assoc, hread, hread', List.append_assoc]

/-- **Good pieces have own tags only.** -/
theorem onlyOwnTags_write {ps : List Piece} (hps : Good ps) : OnlyOwnTags (write ps) := by
  obtain ⟨ts, hts, hread⟩ := tags_write hps
  have hall : tags (write ps) = ts := by
    have h := hread []
    rw [List.append_nil] at h
    rw [tags, h]
    exact List.append_nil ts
  intro t ht
  rw [hall] at ht
  exact hts t ht

/-! ## A quote in an address -/

/-- An attribute that the address goes on as. -/
def Stray (n : List Char) : Prop := "http".toList <+: n

def StrayTag (t : Tag) : Prop := ∃ x ∈ t.attrs, Stray x.1

theorem StrayTag.not_own {t : Tag} (h : StrayTag t) : ¬ OwnTag t := by
  rintro ⟨-, hattrs⟩
  obtain ⟨x, hx, hstray⟩ := h
  obtain ⟨-, ⟨hname, -⟩ | hname | hname⟩ := hattrs x hx
  · rw [Stray, hname] at hstray
    exact absurd hstray (by decide)
  · rw [Stray, hname] at hstray
    exact absurd hstray (by decide)
  · rw [Stray, hname] at hstray
    exact absurd hstray (by decide)

theorem StrayTag.add {t : Tag} (h : StrayTag t) (n v : List Char) : StrayTag (t.add n v) := by
  obtain ⟨x, hx, hstray⟩ := h
  exact ⟨x, List.mem_append_left _ hx, hstray⟩

theorem strayTag_add {n : List Char} (h : Stray n) (t : Tag) (v : List Char) :
    StrayTag (t.add n v) :=
  ⟨(n, v), List.mem_append_right _ (List.mem_singleton_self _), h⟩

/-- In a tag that has such an attribute, or is at one. It stays so until the tag ends. -/
def StrayState : State → Prop
  | .data | .tagOpen | .tagName _ => False
  | .beforeName t | .afterQuoted t => StrayTag t
  | .attrName t n | .afterName t n | .beforeValue t n | .quoted t n _ | .unquoted t n _ =>
      StrayTag t ∨ Stray n

theorem strayTag_end {t : Tag} {n : List Char} (h : StrayTag t ∨ Stray n) (v : List Char) :
    StrayTag (t.add n v) := h.elim (fun h => h.add n v) fun h => strayTag_add h t v

theorem Stray.snoc {n : List Char} (h : Stray n) (c : Char) : Stray (n ++ [c]) :=
  h.trans (List.prefix_append n [c])

/-- A step stays in the tag, or ends it. -/
theorem strayState_step {st : State} (h : StrayState st) (c : Char) :
    (StrayState (step st c).1 ∧ (step st c).2 = none) ∨ ∃ t, StrayTag t ∧ (step st c).2 = some t := by
  cases st with
  | data => cases h
  | tagOpen => cases h
  | tagName t => cases h
  | beforeName t =>
    simp only [step]
    split
    · exact Or.inl ⟨h, rfl⟩
    · split
      · exact Or.inr ⟨t, h, rfl⟩
      · exact Or.inl ⟨Or.inl h, rfl⟩
  | attrName t n =>
    simp only [step]
    split
    · exact Or.inl ⟨h, rfl⟩
    · split
      · exact Or.inl ⟨strayTag_end h [], rfl⟩
      · split
        · exact Or.inr ⟨_, strayTag_end h [], rfl⟩
        · split
          · exact Or.inl ⟨h, rfl⟩
          · exact Or.inl ⟨h.imp id fun h => h.snoc c, rfl⟩
  | afterName t n =>
    simp only [step]
    split
    · exact Or.inl ⟨h, rfl⟩
    · split
      · exact Or.inl ⟨strayTag_end h [], rfl⟩
      · split
        · exact Or.inr ⟨_, strayTag_end h [], rfl⟩
        · split
          · exact Or.inl ⟨h, rfl⟩
          · exact Or.inl ⟨Or.inl (strayTag_end h []), rfl⟩
  | beforeValue t n =>
    simp only [step]
    split
    · exact Or.inl ⟨h, rfl⟩
    · split
      · exact Or.inl ⟨h, rfl⟩
      · split
        · exact Or.inr ⟨_, strayTag_end h [], rfl⟩
        · exact Or.inl ⟨h, rfl⟩
  | quoted t n v =>
    simp only [step]
    split
    · exact Or.inl ⟨strayTag_end h v, rfl⟩
    · exact Or.inl ⟨h, rfl⟩
  | unquoted t n v =>
    simp only [step]
    split
    · exact Or.inl ⟨strayTag_end h v, rfl⟩
    · split
      · exact Or.inr ⟨_, strayTag_end h v, rfl⟩
      · exact Or.inl ⟨h, rfl⟩
  | afterQuoted t =>
    simp only [step]
    split
    · exact Or.inl ⟨h, rfl⟩
    · split
      · exact Or.inr ⟨t, h, rfl⟩
      · exact Or.inl ⟨Or.inl h, rfl⟩

/-- The end of a link ends the tag, wherever in the tag the tokenizer is. -/
theorem stray_linkRest {st : State} (h : StrayState st) (s : List Char) :
    ∃ t ∈ tagsFrom st (linkRest ++ s), StrayTag t := by
  cases st with
  | data => cases h
  | tagOpen => cases h
  | tagName t => cases h
  | beforeName t => exact ⟨_, List.mem_cons_self, ((StrayTag.add h _ _).add _ _).add _ _⟩
  | attrName t n =>
    have hn := strayTag_end (h.imp id fun h => h.snoc '"') []
    exact ⟨_, List.mem_cons_self, (hn.add _ _).add _ _⟩
  | afterName t n =>
    exact ⟨_, List.mem_cons_self, (((strayTag_end h []).add _ _).add _ _).add _ _⟩
  | beforeValue t n => exact ⟨_, List.mem_cons_self, ((strayTag_end h _).add _ _).add _ _⟩
  | quoted t n v => exact ⟨_, List.mem_cons_self, ((strayTag_end h v).add _ _).add _ _⟩
  | unquoted t n v => exact ⟨_, List.mem_cons_self, ((strayTag_end h _).add _ _).add _ _⟩
  | afterQuoted t => exact ⟨_, List.mem_cons_self, ((StrayTag.add h _ _).add _ _).add _ _⟩

/-- The end of a link somewhere behind ends the tag at the latest. -/
theorem stray_of_linkRest {st : State} (h : StrayState st) {x : List Char}
    (hx : linkRest <:+: x) : ∃ t ∈ tagsFrom st x, StrayTag t := by
  obtain ⟨y, z, rfl⟩ := hx
  rw [List.append_assoc]
  induction y generalizing st with
  | nil => exact stray_linkRest h z
  | cons c y ih =>
    rw [List.cons_append, tagsFrom_cons]
    rcases strayState_step h c with ⟨hst, -⟩ | ⟨t, ht, hend⟩
    · obtain ⟨t, hmem, ht⟩ := ih hst
      exact ⟨t, List.mem_append_right _ hmem, ht⟩
    · rw [hend]
      exact ⟨t, List.mem_append_left _ (List.mem_singleton_self t), ht⟩

/-- The tag of an address that has a quote before its end. Behind the quote there is the beginning
of another address, and the end of a link somewhere. -/
def Torn (z : List Char) : Prop :=
  ∃ u r, z = linkStart ++ u ++ '"' :: ("http".toList ++ r) ∧ '"' ∉ u ∧ Web u ∧ linkRest <:+: r

/-- **Behind such a quote there are other attributes.** -/
theorem Torn.not_onlyOwnTags {ps : List Piece} (hps : Good ps) {z : List Char} (h : Torn z) :
    ¬ OnlyOwnTags (write ps ++ z) := by
  intro hown
  obtain ⟨u, r, rfl, hu, -, hrest⟩ := h
  obtain ⟨ts, -, hread⟩ := tags_write hps
  have hquoted : tagsFrom .data (linkStart ++ u ++ '"' :: ("http".toList ++ r)) =
      tagsFrom (.attrName (Tag.add ⟨false, "a".toList, []⟩ "href".toList u) "http".toList) r := by
    rw [List.append_assoc]
    exact tagsFrom_quoted hu _
  have hstray : StrayState (.attrName (Tag.add ⟨false, "a".toList, []⟩ "href".toList u)
      "http".toList) := Or.inr List.prefix_rfl
  obtain ⟨t, ht, htag⟩ := stray_of_linkRest hstray hrest
  refine htag.not_own (hown t ?_)
  unfold tags
  rw [hread, hquoted]
  exact List.mem_append_right _ ht

/-! ## The pieces that the rules write -/

/-- The writing of the rules in pieces, with the tag of an address as one. -/
def pieces : Writing Piece where
  lit := .char
  char? p := match p with
    | .char c => some c
    | _ => none
  char?_eq := by
    intro p c
    cases p with
    | char d => simp
    | _ => simp
  mark m := [.mark m]
  link u := [.link (write u)]

theorem pieces_stand : Stands pieces Piece.text where
  lit _ := rfl
  mark m := List.append_nil _
  quiet := by
    intro m p hp
    rw [List.mem_singleton.mp hp]
    right
    cases m with
    | _ => exact neutral_of_all (by decide) (Or.inl rfl)
  link u := List.append_nil _
  onOneLine := by
    intro u hu p hp
    rw [List.mem_singleton.mp hp]
    refine Or.inr ⟨List.cons_ne_nil _ _, fun h => ?_⟩
    rcases List.mem_append.mp h with h | h
    · rcases List.mem_append.mp h with h | h
      · exact absurd h (by decide)
      · exact hu h
    · exact absurd h (by decide)

theorem quote_notMem_mark (m : Markup) : '"' ∉ m.text.toList := by
  cases m with
  | _ => decide

/-- **The rules write good pieces.** An address has letters only, as the rule for links comes behind
the others and the tags that these write have no quotes. -/
theorem good_rules {s : List Char} (hs : ∀ c ∈ s, Escaped c) :
    Good (rules pieces (s.map .char)) := by
  intro p hp
  rcases mem_rules hp with h | ⟨m, h⟩ | ⟨u, hu, h⟩
  · exact good_chars hs p h
  · rw [List.mem_singleton.mp h]
    trivial
  · rw [List.mem_singleton.mp h]
    constructor
    · intro hc
      obtain ⟨q, hq, hc⟩ := List.mem_flatMap.mp hc
      rcases mem_emphasized (hu.symbols hq) with hq | ⟨m, hq⟩
      · obtain ⟨c, hcs, rfl⟩ := List.mem_map.mp hq
        exact (hs c hcs).quote (List.mem_singleton.mp hc).symm
      · rw [List.mem_singleton.mp hq] at hc
        exact quote_notMem_mark m hc
    · obtain ⟨sch, run, rfl, hsch, -⟩ := hu.written
      have hwrite : write (sch.map pieces.lit ++ run) = sch ++ write run := by
        rw [write_append]
        exact congrArg (· ++ write run) (write_chars sch)
      rw [hwrite]
      rcases hsch with rfl | rfl
      · exact Or.inr (List.prefix_append _ _)
      · exact Or.inl (List.prefix_append _ _)

theorem rules_eq_write {s : List Char} :
    rules plain s = write (rules pieces (s.map .char)) := by
  have hs : ∀ p ∈ s.map Piece.char, Quiet pieces Piece.text p := by
    intro p hp
    obtain ⟨c, -, rfl⟩ := List.mem_map.mp hp
    exact Or.inl ⟨c, rfl⟩
  have h := rules_expand pieces_stand hs
  have hchars : (s.map Piece.char).flatMap Piece.text = s := write_chars s
  rw [hchars] at h
  exact h.symm

/-! ## Where a placeholder is -/

theorem apart_mark (m : Markup) : Apart m.text.toList := by
  cases m with
  | _ => decide

/-- What begins with a letter that no markup begins with is letters. -/
theorem chars_of_prefix {t after z : List Char} {ps : List Piece} (ht : ∀ c ∈ t, c ≠ '<')
    (hz : ∀ c, z.head? = some c → c = '<') (h : write ps ++ z = t ++ after) :
    ∃ qs, ps = t.map .char ++ qs ∧ after = write qs ++ z := by
  induction t generalizing ps with
  | nil => exact ⟨ps, rfl, h.symm⟩
  | cons c t ih =>
    obtain ⟨hc, hrest⟩ := List.forall_mem_cons.mp ht
    have hword : ∀ {w x : List Char}, w.head? = some '<' → w ++ x = c :: t ++ after → False := by
      intro w x hw hx
      cases w with
      | nil => cases hw
      | cons d w =>
        cases hw
        exact hc (List.cons.inj hx).1.symm
    cases ps with
    | nil =>
      cases z with
      | nil => cases h
      | cons d z =>
        have hd := hz d rfl
        subst hd
        exact absurd (List.cons.inj h).1.symm hc
    | cons p ps =>
      rw [write_cons, List.append_assoc] at h
      cases p with
      | char d =>
        obtain ⟨rfl, htail⟩ := List.cons.inj h
        obtain ⟨qs, rfl, hafter⟩ := ih hrest htail
        exact ⟨qs, rfl, hafter⟩
      | mark m => exact (hword (by cases m <;> rfl) h).elim
      | pre => exact (hword rfl h).elim
      | preEnd => exact (hword rfl h).elim
      | link u => exact (hword rfl h).elim

/-- A placeholder is in the text, in an address, or behind the pieces. In front of one in an address
there is an odd number of quotes. -/
inductive Located (n : Nat) (ps : List Piece) (z before after : List Char) : Prop
  | text (ps₁ ps₂ : List Piece) (hps : ps = ps₁ ++ (token n).map .char ++ ps₂)
      (hbefore : before = write ps₁) (hafter : after = write ps₂ ++ z)
  | address (ps₁ ps₂ : List Piece) (u₁ u₂ : List Char)
      (hps : ps = ps₁ ++ .link (u₁ ++ token n ++ u₂) :: ps₂)
      (hbefore : before = write ps₁ ++ linkStart ++ u₁)
      (hafter : after = u₂ ++ linkRest ++ write ps₂ ++ z)
  | behind (b : List Char) (hbefore : before = write ps ++ b) (hz : z = b ++ token n ++ after)

theorem Located.cons {n : Nat} {ps : List Piece} {z before after : List Char}
    (h : Located n ps z before after) (p : Piece) :
    Located n (p :: ps) z (p.text ++ before) after := by
  cases h with
  | text ps₁ ps₂ hps hbefore hafter =>
    subst hps hbefore
    exact .text (p :: ps₁) ps₂ rfl (write_cons p ps₁).symm hafter
  | address ps₁ ps₂ u₁ u₂ hps hbefore hafter =>
    subst hps hbefore
    refine .address (p :: ps₁) ps₂ u₁ u₂ rfl ?_ hafter
    rw [write_cons]
    simp only [List.append_assoc]
  | behind b hbefore hz =>
    subst hbefore
    refine .behind b ?_ hz
    rw [write_cons, List.append_assoc]

/-- **Every occurrence of a placeholder is at such a place.** -/
theorem located {n : Nat} {ps : List Piece} {z before after : List Char}
    (hz : ∀ c, z.head? = some c → c = '<') (h : write ps ++ z = before ++ token n ++ after) :
    Located n ps z before after := by
  induction ps generalizing before with
  | nil => exact .behind before rfl h
  | cons p ps ih =>
    have hskip : Apart p.text → Located n (p :: ps) z before after := by
      intro hp
      rw [write_cons, List.append_assoc] at h
      obtain ⟨before', rfl, hrest⟩ := hp.skip h
      exact (ih hrest).cons p
    cases p with
    | mark m => exact hskip (apart_mark m)
    | pre => exact hskip (by decide)
    | preEnd => exact hskip (by decide)
    | char c =>
      cases before with
      | nil =>
        obtain ⟨qs, hqs, hafter⟩ := chars_of_prefix (fun c hc => (token_escaped hc).lt) hz h
        exact .text [] qs hqs rfl hafter
      | cons d before =>
        obtain ⟨rfl, hrest⟩ := List.cons.inj h
        exact (ih hrest).cons (.char c)
    | link u =>
      have hlink : linkStart ++ (u ++ linkRest ++ (write ps ++ z)) = before ++ token n ++ after := by
        rw [← h, write_cons]
        simp only [text_link, List.append_assoc]
      obtain ⟨before₁, rfl, h₁⟩ := Apart.skip (by decide) hlink
      obtain ⟨r, hr, hapart⟩ : ∃ r, linkRest = '"' :: r ∧ Apart r := ⟨_, rfl, by decide⟩
      rw [List.append_assoc, hr, List.cons_append] at h₁
      rcases occurrence_cases (notMem_token (by decide) (by decide)) h₁ with
        ⟨u', rfl, rfl⟩ | ⟨before₂, rfl, h₂⟩
      · refine .address [] ps before₁ u' rfl rfl ?_
        simp only [hr, List.append_assoc, List.cons_append]
      · obtain ⟨before₃, rfl, h₃⟩ := hapart.skip h₂
        have hcons := (ih h₃).cons (.link u)
        have hbefore : linkStart ++ (u ++ '"' :: (r ++ before₃)) = (Piece.link u).text ++ before₃ := by
          simp only [text_link, hr, List.append_assoc, List.cons_append]
        rw [hbefore]
        exact hcons

/-! ## What is put in -/

section Blocks

variable {code : List Char} (hcode : ∀ c ∈ code, Escaped c)

theorem before_mem_parts : .before ∈ parts (codeBlock code) ↔ .before ∈ parts (trim code) := by
  rw [parts_codeBlock]
  simp

include hcode

/-- Behind good pieces a block is good pieces. -/
theorem good_substitute (n : Nat) {bs : List Piece} (hbs : Good bs) (after : List Char) : ∃ qs, Good qs ∧
    substitute (token n) (write bs) after (codeBlock code) = write qs := by
  have hparts : ∀ l : List Part, (∀ x ∈ l, (∃ c ∈ code, x = .char c) ∨ x = .matched ∨ x = .before) →
      ∃ qs, Good qs ∧ l.flatMap (Part.text (token n) (write bs) after) = write qs := by
    intro l
    induction l with
    | nil => exact fun _ => ⟨[], (fun _ h => by cases h), rfl⟩
    | cons x l ih =>
      intro hl
      obtain ⟨hx, hl⟩ := List.forall_mem_cons.mp hl
      obtain ⟨qs, hqs, hwrite⟩ := ih hl
      rw [List.flatMap_cons, hwrite]
      rcases hx with ⟨c, hc, rfl⟩ | rfl | rfl
      · exact ⟨.char c :: qs, good_cons.mpr ⟨⟨(hcode c hc).lt, (hcode c hc).quote⟩, hqs⟩, rfl⟩
      · refine ⟨(token n).map .char ++ qs, good_append.mpr ⟨good_chars fun _ => token_escaped, hqs⟩,
          ?_⟩
        rw [write_append, write_chars]
        rfl
      · exact ⟨bs ++ qs, good_append.mpr ⟨hbs, hqs⟩, (write_append bs qs).symm⟩
  obtain ⟨qs, hqs, hwrite⟩ := hparts _ fun x hx => part_codeBlock hcode hx
  refine ⟨[.pre, .mark .code] ++ qs ++ [.mark .codeEnd, .preEnd], ?_, ?_⟩
  · refine good_append.mpr ⟨good_append.mpr ⟨?_, hqs⟩, ?_⟩
    · exact good_cons.mpr ⟨trivial, good_cons.mpr ⟨trivial, fun _ h => by cases h⟩⟩
    · exact good_cons.mpr ⟨trivial, good_cons.mpr ⟨trivial, fun _ h => by cases h⟩⟩
  · rw [substitute_codeBlock, hwrite, write_append, write_append]
    rfl

theorem quote_notMem_parts (n : Nat) (before after : List Char) {l : List Part}
    (hl : l ⊆ parts (trim code)) (hbefore : .before ∉ l) :
    '"' ∉ l.flatMap (Part.text (token n) before after) := by
  intro h
  obtain ⟨x, hx, hc⟩ := List.mem_flatMap.mp h
  rcases part_codeBlock hcode (hl hx) with ⟨c, hcc, rfl⟩ | rfl | rfl
  · exact (hcode c hcc).quote (List.mem_singleton.mp hc).symm
  · exact (token_escaped hc).quote rfl
  · exact hbefore hx

/-- A block that does not ask for the text before it has no quotes. -/
theorem quote_notMem_substitute (n : Nat) (before after : List Char)
    (hbefore : .before ∉ parts (codeBlock code)) :
    '"' ∉ substitute (token n) before after (codeBlock code) := by
  rw [before_mem_parts] at hbefore
  have hparts := quote_notMem_parts hcode n before after (fun _ h => h) hbefore
  rw [substitute_codeBlock, List.mem_append, List.mem_append]
  rintro ((h | h) | h)
  · exact absurd h (by decide)
  · exact hparts h
  · exact absurd h (by decide)

/-- In a block that does, the first quote is one of that text. -/
theorem substitute_before (n : Nat) (before after : List Char)
    (hbefore : .before ∈ parts (codeBlock code)) : ∃ x y,
    substitute (token n) before after (codeBlock code) = x ++ before ++ y ∧ '"' ∉ x := by
  rw [before_mem_parts] at hbefore
  obtain ⟨l, l', hl, hnot⟩ := List.eq_append_cons_of_mem hbefore
  have hsub : l ⊆ parts (trim code) := by
    rw [hl]
    exact List.subset_append_left _ _
  refine ⟨blockStart ++ l.flatMap (Part.text (token n) before after),
    l'.flatMap (Part.text (token n) before after) ++ blockEnd, ?_, ?_⟩
  · rw [substitute_codeBlock, hl, List.flatMap_append, List.flatMap_cons]
    simp only [Part.text, List.append_assoc]
  · rw [List.mem_append]
    rintro (h | h)
    · exact absurd h (by decide)
    · exact quote_notMem_parts hcode n before after hsub hnot h

end Blocks

/-! ## Quotes and addresses -/

theorem prefix_of_lowLine {w u v : List Char} (hw : '_' ∉ w) (h : w <+: u ++ '_' :: v) :
    w <+: u := by
  induction w generalizing u with
  | nil => exact List.nil_prefix
  | cons c w ih =>
    cases u with
    | nil =>
      rw [List.nil_append, List.cons_prefix_cons] at h
      exact absurd (h.1 ▸ List.mem_cons_self) hw
    | cons d u =>
      rw [List.cons_append, List.cons_prefix_cons] at h
      exact List.cons_prefix_cons.mpr ⟨h.1, ih (fun hc => hw (List.mem_cons_of_mem _ hc)) h.2⟩

/-- The scheme of an address is in front of the placeholders in it. -/
theorem Web.of_token {u₁ u₂ : List Char} {n : Nat} (h : Web (u₁ ++ token n ++ u₂)) : Web u₁ := by
  obtain ⟨t, ht⟩ := token_eq n
  rw [List.append_assoc, ht, List.cons_append] at h
  exact h.imp (prefix_of_lowLine (by decide)) (prefix_of_lowLine (by decide))

theorem Web.append {u : List Char} (h : Web u) (v : List Char) : Web (u ++ v) :=
  h.imp (fun h => h.trans (List.prefix_append u v)) fun h => h.trans (List.prefix_append u v)

theorem Web.http {u : List Char} (h : Web u) : ∃ r, u = "http".toList ++ r := by
  rcases h with ⟨r, rfl⟩ | ⟨r, rfl⟩
  · exact ⟨"://".toList ++ r, rfl⟩
  · exact ⟨"s://".toList ++ r, rfl⟩

/-- The first quote in front of an address is in front of an address. -/
theorem first_quote {ps : List Piece} (hps : Good ps) {u : List Char} (hu : Web u) :
    ∃ x r, write ps ++ linkStart ++ u = x ++ '"' :: ("http".toList ++ r) ∧ '"' ∉ x := by
  have hstart : linkStart = "<a href=".toList ++ ['"'] := rfl
  have hx : '"' ∉ "<a href=".toList := by decide
  induction ps with
  | nil =>
    obtain ⟨r, rfl⟩ := hu.http
    exact ⟨_, r, rfl, hx⟩
  | cons p ps ih =>
    obtain ⟨hp, hps⟩ := good_cons.mp hps
    obtain ⟨x, r, heq, hquote⟩ := ih hps
    have hskip : '"' ∉ p.text → ∃ x r, write (p :: ps) ++ linkStart ++ u =
        x ++ '"' :: ("http".toList ++ r) ∧ '"' ∉ x := by
      intro htext
      refine ⟨p.text ++ x, r, ?_, ?_⟩
      · rw [write_cons, List.append_assoc, List.append_assoc, ← List.append_assoc (write ps), heq,
          List.append_assoc]
      · rw [List.mem_append]
        exact fun h => h.elim htext hquote
    cases p with
    | char c => exact hskip fun h => hp.2 (List.mem_singleton.mp h).symm
    | mark m => exact hskip (quote_notMem_mark m)
    | pre => exact hskip (by decide)
    | preEnd => exact hskip (by decide)
    | link v =>
      obtain ⟨r', rfl⟩ := hp.2.http
      refine ⟨_, r' ++ linkRest ++ write ps ++ linkStart ++ u, ?_, hx⟩
      rw [write_cons]
      simp only [text_link, hstart, List.append_assoc, List.cons_append, List.nil_append]

theorem count_quote_write {ps : List Piece} (hps : Good ps) : (write ps).count '"' % 2 = 0 := by
  induction ps with
  | nil => rfl
  | cons p ps ih =>
    obtain ⟨hp, hps⟩ := good_cons.mp hps
    have ih := ih hps
    rw [write_cons, List.count_append]
    have htext : p.text.count '"' % 2 = 0 := by
      cases p with
      | char c =>
        have hc : [c].count '"' = 0 :=
          List.count_eq_zero.mpr fun h => hp.2 (List.mem_singleton.mp h).symm
        show [c].count '"' % 2 = 0
        rw [hc]
      | mark m =>
        have hm : m.text.toList.count '"' = 0 := List.count_eq_zero.mpr (quote_notMem_mark m)
        show m.text.toList.count '"' % 2 = 0
        rw [hm]
      | pre => decide
      | preEnd => decide
      | link u =>
        have hu : u.count '"' = 0 := List.count_eq_zero.mpr hp.1
        have hstart : linkStart.count '"' = 1 := by decide
        have hrest : linkRest.count '"' = 5 := by decide
        simp only [text_link, List.count_append, hu, hstart, hrest]
    omega

/-- The text before a placeholder in an address has an odd number of quotes. -/
theorem count_quote_address {ps : List Piece} (hps : Good ps) {u : List Char} (hu : '"' ∉ u) :
    (write ps ++ linkStart ++ u).count '"' % 2 = 1 := by
  have hwrite := count_quote_write hps
  have hstart : linkStart.count '"' = 1 := by decide
  have hcount : u.count '"' = 0 := List.count_eq_zero.mpr hu
  rw [List.count_append, List.count_append, hstart, hcount]
  omega

/-- The end of a link is on one side of a placeholder, and stays when something else is put there. -/
theorem linkRest_infix {n : Nat} {b after : List Char} (h : linkRest <:+: b ++ token n ++ after)
    (x : List Char) : linkRest <:+: b ++ x ++ after := by
  obtain ⟨p, q, hpq⟩ := h
  obtain ⟨l, hl, hapart⟩ : ∃ l, linkRest = '"' :: l ∧ Apart l := ⟨_, rfl, by decide⟩
  rw [hl, List.append_assoc, List.cons_append] at hpq
  rcases occurrence_cases (notMem_token (by decide) (by decide)) hpq with
    ⟨p', rfl, rfl⟩ | ⟨b₁, rfl, h₁⟩
  · rw [hl]
    exact ⟨b ++ x ++ p', q, by simp only [List.append_assoc, List.cons_append]⟩
  · obtain ⟨b₂, rfl, rfl⟩ := hapart.skip h₁
    rw [hl]
    exact ⟨p, b₂ ++ x ++ after, by simp only [List.append_assoc, List.cons_append]⟩

/-! ## One block is put back -/

section PutBack

variable {n : Nat} {code : List Char} (hcode : ∀ c ∈ code, Escaped c) {ps ps₁ ps₂ : List Piece}
  {u₁ u₂ z : List Char}

include hcode

theorem put_text (hps : Good (ps₁ ++ (token n).map .char ++ ps₂)) (z : List Char) :
    ∃ qs, Good qs ∧ write ps₁ ++ substitute (token n) (write ps₁) (write ps₂ ++ z)
      (codeBlock code) ++ (write ps₂ ++ z) = write qs ++ z := by
  obtain ⟨hps, hps₂⟩ := good_append.mp hps
  obtain ⟨hps₁, -⟩ := good_append.mp hps
  obtain ⟨qs, hqs, hwrite⟩ := good_substitute hcode n hps₁ (write ps₂ ++ z)
  refine ⟨ps₁ ++ qs ++ ps₂, good_append.mpr ⟨good_append.mpr ⟨hps₁, hqs⟩, hps₂⟩, ?_⟩
  rw [hwrite, write_append, write_append]
  simp only [List.append_assoc]

/-- In an address, a block that does not ask for the text before it. -/
theorem put_address (hps : Good (ps₁ ++ .link (u₁ ++ token n ++ u₂) :: ps₂))
    (hbefore : .before ∉ parts (codeBlock code)) (before after z : List Char) : ∃ qs, Good qs ∧
    write ps₁ ++ linkStart ++ u₁ ++ substitute (token n) before after (codeBlock code) ++
      (u₂ ++ linkRest ++ write ps₂ ++ z) = write qs ++ z := by
  obtain ⟨hps₁, hps⟩ := good_append.mp hps
  obtain ⟨⟨hquote, hweb⟩, hps₂⟩ := good_cons.mp hps
  have hsub := quote_notMem_substitute hcode n before after hbefore
  simp only [List.mem_append, not_or] at hquote
  refine ⟨ps₁ ++ .link (u₁ ++ substitute (token n) before after (codeBlock code) ++ u₂) :: ps₂,
    good_append.mpr ⟨hps₁, good_cons.mpr ⟨⟨?_, ?_⟩, hps₂⟩⟩, ?_⟩
  · simp only [List.mem_append, not_or]
    exact ⟨⟨hquote.1.1, hsub⟩, hquote.2⟩
  · rw [List.append_assoc]
    exact hweb.of_token.append _
  · rw [write_append, write_cons]
    simp only [text_link, List.append_assoc]

/-- One that does tears the tag. -/
theorem put_before (hps : Good ps) (hquote : '"' ∉ u₁) (hweb : Web u₁)
    (hbefore : .before ∈ parts (codeBlock code)) (after : List Char) (hrest : linkRest <:+: after) :
    ∃ z, Torn z ∧ write ps ++ linkStart ++ u₁ ++ substitute (token n) (write ps ++ linkStart ++ u₁)
      after (codeBlock code) ++ after = write ps ++ z := by
  obtain ⟨x, y, hsub, hx⟩ := substitute_before hcode n (write ps ++ linkStart ++ u₁) after hbefore
  obtain ⟨x', r, hfirst, hx'⟩ := first_quote hps hweb
  rw [hsub]
  refine ⟨linkStart ++ (u₁ ++ x ++ x') ++ '"' :: ("http".toList ++ (r ++ y ++ after)),
    ⟨_, _, rfl, ?_, ?_, ?_⟩, ?_⟩
  · simp only [List.mem_append, not_or]
    exact ⟨⟨hquote, hx⟩, hx'⟩
  · rw [List.append_assoc]
    exact hweb.append _
  · exact hrest.trans (List.suffix_append _ _).isInfix
  · nth_rewrite 2 [hfirst]
    simp only [List.append_assoc, List.cons_append]

end PutBack

/-! ## The loop over the blocks -/

/-- Good pieces: what the loop begins with, and keeps as long as every block fits. -/
def Sound (s : List Char) : Prop := ∃ ps, Good ps ∧ s = write ps

/-- Good pieces, and then a torn tag: what the loop cannot leave again. -/
def Spoilt (s : List Char) : Prop := ∃ ps z, Good ps ∧ Torn z ∧ s = write ps ++ z

theorem Sound.onlyOwnTags {s : List Char} (h : Sound s) : OnlyOwnTags s := by
  obtain ⟨ps, hps, rfl⟩ := h
  exact onlyOwnTags_write hps

theorem Spoilt.not_onlyOwnTags {s : List Char} (h : Spoilt s) : ¬ OnlyOwnTags s := by
  obtain ⟨ps, z, hps, hz, rfl⟩ := h
  exact hz.not_onlyOwnTags hps

/-- The block does not ask for the text before it, or its placeholder is not in an address: in front
of one that is, a quote has not been closed. -/
def fitsIn (n : Nat) (block safe : List Char) : Bool :=
  match splitFirst (token n) safe with
  | some (before, _) => .before ∉ parts block || before.count '"' % 2 = 0
  | none => true

def fitFrom (n : Nat) : List (List Char) → List Char → Bool
  | [], _ => true
  | block :: blocks, safe =>
      fitsIn n block safe && fitFrom (n + 1) blocks (replaceFirst (token n) block safe)

/-- Each block fits where it is put back. It can be run; it looks at the text before each step of
the loop, and never at the tags of the page. -/
def fits (md : List Char) : Bool :=
  let (safe, codeBlocks) := takeOut 0 ((fence (letters Char)).scan (escapeHtml md))
  fitFrom 0 codeBlocks (rules plain safe)

theorem Torn.head {z : List Char} (h : Torn z) (c : Char) (hc : z.head? = some c) : c = '<' := by
  obtain ⟨u, r, rfl, -⟩ := h
  cases hc
  rfl

section Step

variable {n : Nat} {code s : List Char} (hcode : ∀ c ∈ code, Escaped c)

include hcode

/-- **A block that fits leaves good pieces, and one that does not tears a tag.** By where the
placeholder is (`located`). -/
theorem sound_replaceFirst (h : Sound s) :
    if fitsIn n (codeBlock code) s then Sound (replaceFirst (token n) (codeBlock code) s)
    else Spoilt (replaceFirst (token n) (codeBlock code) s) := by
  obtain ⟨ps, hps, rfl⟩ := h
  unfold fitsIn replaceFirst
  cases hsplit : splitFirst (token n) (write ps) with
  | none => exact ⟨ps, hps, rfl⟩
  | some x =>
    obtain ⟨before, after⟩ := x
    obtain ⟨hocc, -⟩ := splitFirst_some (token_ne_nil n) hsplit
    rw [← List.append_nil (write ps)] at hocc
    cases located (fun c hc => by cases hc) hocc with
    | text ps₁ ps₂ hps' hbefore hafter =>
      subst hps' hbefore hafter
      have hcount := count_quote_write (good_append.mp (good_append.mp hps).1).1
      obtain ⟨qs, hqs, hwrite⟩ := put_text hcode hps []
      simp only [hcount, decide_true, Bool.or_true, if_true]
      exact ⟨qs, hqs, by rw [hwrite, List.append_nil]⟩
    | address ps₁ ps₂ u₁ u₂ hps' hbefore hafter =>
      subst hps' hbefore hafter
      obtain ⟨hps₁, hlink⟩ := good_append.mp hps
      obtain ⟨⟨hquote, hweb⟩, -⟩ := good_cons.mp hlink
      simp only [List.mem_append, not_or] at hquote
      have hcount := count_quote_address hps₁ hquote.1.1
      by_cases hask : Part.before ∈ parts (codeBlock code)
      · obtain ⟨z, hz, hwrite⟩ := put_before (n := n) hcode hps₁ hquote.1.1 hweb.of_token hask
          (u₂ ++ linkRest ++ write ps₂ ++ []) ⟨u₂, write ps₂ ++ [], by simp⟩
        simp only [hcount, hask, not_true_eq_false, decide_false, Nat.one_ne_zero, Bool.or_self,
          Bool.false_eq_true, if_false]
        exact ⟨ps₁, z, hps₁, hz, hwrite⟩
      · obtain ⟨qs, hqs, hwrite⟩ := put_address hcode hps hask (write ps₁ ++ linkStart ++ u₁)
          (u₂ ++ linkRest ++ write ps₂ ++ []) []
        simp only [hask, not_false_eq_true, decide_true, Bool.true_or, if_true]
        exact ⟨qs, hqs, by rw [hwrite, List.append_nil]⟩
    | behind b hbefore hz =>
      have hnil := List.append_eq_nil_iff.mp hz.symm
      exact absurd (List.append_eq_nil_iff.mp hnil.1).2 (token_ne_nil n)

/-- In a torn tag a block is put in front of the quote, or between the name behind it and the end of
the link. -/
theorem torn_replaceFirst {ps : List Piece} {z b after : List Char} (hps : Good ps) (hz : Torn z)
    (hocc : z = b ++ token n ++ after) : ∃ z', Torn z' ∧ write ps ++ b ++
      substitute (token n) (write ps ++ b) after (codeBlock code) ++ after = write ps ++ z' := by
  obtain ⟨u, r, rfl, hquote, hweb, hrest⟩ := hz
  have hnot : '"' ∉ token n := notMem_token (by decide) (by decide)
  rw [List.append_assoc] at hocc
  obtain ⟨b₁, rfl, h₁⟩ := Apart.skip (by decide) hocc
  rcases occurrence_cases hnot h₁ with ⟨u', rfl, rfl⟩ | ⟨b₂, rfl, h₂⟩
  · -- still in the address
    simp only [List.mem_append, not_or] at hquote
    rw [← List.append_assoc (write ps)]
    by_cases hask : Part.before ∈ parts (codeBlock code)
    · refine put_before hcode hps hquote.1.1 hweb.of_token hask _ (hrest.trans ?_)
      exact (List.suffix_append (u' ++ '"' :: "http".toList) r).isInfix.trans (by simp)
    · have hsub := quote_notMem_substitute hcode n (write ps ++ linkStart ++ b₁)
        (u' ++ '"' :: ("http".toList ++ r)) hask
      refine ⟨_, ⟨b₁ ++ substitute (token n) (write ps ++ linkStart ++ b₁)
        (u' ++ '"' :: ("http".toList ++ r)) (codeBlock code) ++ u', r, rfl, ?_, ?_, hrest⟩, ?_⟩
      · simp only [List.mem_append, not_or]
        exact ⟨⟨hquote.1.1, hsub⟩, hquote.2⟩
      · rw [List.append_assoc]
        exact hweb.of_token.append _
      · simp only [List.append_assoc]
  · obtain ⟨b₃, rfl, rfl⟩ := Apart.skip (by decide) h₂
    have hrest' := linkRest_infix hrest
      (substitute (token n) (write ps ++ (linkStart ++ (u ++ '"' :: ("http".toList ++ b₃)))) after
        (codeBlock code))
    refine ⟨_, ⟨u, _, rfl, hquote, hweb, hrest'⟩, ?_⟩
    simp only [List.append_assoc, List.cons_append]

/-- **A torn tag stays torn.** -/
theorem spoilt_replaceFirst (h : Spoilt s) : Spoilt (replaceFirst (token n) (codeBlock code) s) := by
  obtain ⟨ps, z, hps, hz, rfl⟩ := h
  unfold replaceFirst
  cases hsplit : splitFirst (token n) (write ps ++ z) with
  | none => exact ⟨ps, z, hps, hz, rfl⟩
  | some x =>
    obtain ⟨before, after⟩ := x
    obtain ⟨hocc, -⟩ := splitFirst_some (token_ne_nil n) hsplit
    cases located hz.head hocc with
    | text ps₁ ps₂ hps' hbefore hafter =>
      subst hps' hbefore hafter
      obtain ⟨qs, hqs, hwrite⟩ := put_text hcode hps z
      exact ⟨qs, z, hqs, hz, hwrite⟩
    | address ps₁ ps₂ u₁ u₂ hps' hbefore hafter =>
      subst hps' hbefore hafter
      by_cases hask : Part.before ∈ parts (codeBlock code)
      · obtain ⟨hps₁, hlink⟩ := good_append.mp hps
        obtain ⟨⟨hquote, hweb⟩, -⟩ := good_cons.mp hlink
        simp only [List.mem_append, not_or] at hquote
        obtain ⟨z', hz', hwrite⟩ := put_before (n := n) hcode hps₁ hquote.1.1 hweb.of_token hask
          (u₂ ++ linkRest ++ write ps₂ ++ z) ⟨u₂, write ps₂ ++ z, by simp⟩
        exact ⟨ps₁, z', hps₁, hz', hwrite⟩
      · obtain ⟨qs, hqs, hwrite⟩ := put_address hcode hps hask (write ps₁ ++ linkStart ++ u₁)
          (u₂ ++ linkRest ++ write ps₂ ++ z) z
        exact ⟨qs, z, hqs, hz, hwrite⟩
    | behind b hbefore hz' =>
      subst hbefore
      obtain ⟨z', htorn, hwrite⟩ := torn_replaceFirst hcode hps hz hz'
      exact ⟨ps, z', hps, htorn, hwrite⟩

end Step

variable {codes : List (List Char)} {n : Nat} {s : List Char}

theorem spoilt_putBack (hcodes : ∀ code ∈ codes, ∀ c ∈ code, Escaped c) (h : Spoilt s) :
    Spoilt (putBack n (codes.map codeBlock) s) := by
  induction codes generalizing n s with
  | nil => exact h
  | cons code codes ih =>
    obtain ⟨hcode, hcodes⟩ := List.forall_mem_cons.mp hcodes
    exact ih hcodes (spoilt_replaceFirst hcode h)

theorem sound_putBack (hcodes : ∀ code ∈ codes, ∀ c ∈ code, Escaped c) (h : Sound s) :
    if fitFrom n (codes.map codeBlock) s then Sound (putBack n (codes.map codeBlock) s)
    else Spoilt (putBack n (codes.map codeBlock) s) := by
  induction codes generalizing n s with
  | nil => exact h
  | cons code codes ih =>
    obtain ⟨hcode, hcodes⟩ := List.forall_mem_cons.mp hcodes
    have hstep := sound_replaceFirst (n := n) hcode h
    rw [List.map_cons, fitFrom, putBack]
    cases hfits : fitsIn n (codeBlock code) s with
    | true =>
      rw [hfits] at hstep
      exact ih hcodes hstep
    | false =>
      rw [hfits] at hstep
      exact spoilt_putBack hcodes hstep

theorem fitFrom_of_notMem {blocks : List (List Char)} (h : ∀ b ∈ blocks, Part.before ∉ parts b) :
    fitFrom n blocks s = true := by
  induction blocks generalizing n s with
  | nil => rfl
  | cons b blocks ih =>
    obtain ⟨hb, hblocks⟩ := List.forall_mem_cons.mp h
    have hfit : fitsIn n b s = true := by
      unfold fitsIn
      split
      · simp [hb]
      · rfl
    rw [fitFrom, hfit, ih hblocks, Bool.and_self]

/-- **Every block fits where none has a `$` before a backtick**, wherever they are put. -/
theorem fits_of_noPattern {md : List Char}
    (h : ∀ code ∈ CodeBlocks.contents md, ¬ ['$', '`'] <:+: code) : fits md = true := by
  unfold fits
  refine fitFrom_of_notMem fun b hb hbefore => ?_
  rw [takeOut_snd, CodeBlocks.scan_escape, CodeBlocks.blocks_escape] at hb
  obtain ⟨code, hcode, rfl⟩ := List.mem_map.mp hb
  have hpair : ['$', '`'] <:+: escapeHtml code := by
    have hparts : Part.before ∈ parts (trim (escapeHtml code)) := by
      rw [CodeBlocks.block, parts_codeBlock] at hbefore
      simpa using hbefore
    exact (pattern_isInfix hparts fun _ => by simp).trans (trim_isInfix _)
  obtain ⟨d, hin, hhead⟩ := CodeBlocks.pair_escape hpair
  refine h code hcode ?_
  have hd : d = '`' := by
    by_contra hne
    exact (CodeBlocks.escape_letter (by decide) hne).2 (List.mem_of_mem_head? hhead)
  rwa [hd] at hin

/-- **The page has own tags only exactly when every block fits.** For every message. A simple
condition that is enough is `fits_of_noPattern`: no block has a `$` before a backtick. -/
theorem onlyOwnTags_iff (md : List Char) :
    OnlyOwnTags (renderMarkdown md) ↔ fits md = true := by
  obtain ⟨hletters, hblocks⟩ := escaped_fences md
  have hcodes : ∀ code ∈ ((fence (letters Char)).scan (escapeHtml md)).filterMap Sum.getRight?,
      ∀ c ∈ code, Escaped c := by
    intro code hcode
    obtain ⟨x, hx, hright⟩ := List.mem_filterMap.mp hcode
    rw [Sum.getRight?_eq_some_iff.mp hright] at hx
    exact hblocks code hx
  have hsound : Sound (rules plain (takeOut 0 ((fence (letters Char)).scan (escapeHtml md))).1) :=
    ⟨_, good_rules (escaped_takeOut hletters), rules_eq_write⟩
  have hrun := sound_putBack (n := 0) hcodes hsound
  rw [← takeOut_snd 0] at hrun
  unfold fits renderMarkdown
  split at hrun
  · rename_i hfits
    exact ⟨fun _ => hfits, fun _ => hrun.onlyOwnTags⟩
  · rename_i hfits
    exact ⟨fun hown => absurd hown hrun.not_onlyOwnTags, fun hfit => absurd hfit hfits⟩

/-- The text before the block is put into the address of the link that the block is in. -/
theorem address_torn : ¬ OnlyOwnTags (renderMarkdown "[x](http://y/```$`a```)".toList) := by
  intro hown
  have htag := hown _ (List.head_mem (l := tags (renderMarkdown "[x](http://y/```$`a```)".toList))
    (by decide))
  obtain ⟨-, ⟨hname, -⟩ | hname | hname⟩ := htag.attrs ("http:".toList, []) (by decide)
  · exact absurd hname (by decide)
  · exact absurd hname (by decide)
  · exact absurd hname (by decide)

end MessagesApp.Html
