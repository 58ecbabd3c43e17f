import MessagesApp.Interfaz.Views

/-!
# The thread a composer posts to

A composer posts to the thread that the session names when the post reads it, and the session is
every tab's: no form of `mensajes.html` carries a thread, and `mensajes` (`views.py` 341) looks it
up again for every request. So a post need not go to the thread of its page
(`post_to_other_thread`), and what can be said is two things.

The thread is always one that some tab chose, with the id of its title: a session that was written
from two requests, one tab's threads and another tab's choice, names no thread at all. That is an
invariant of the session and of every copy of it (`HonestState`).

It is the page's own as long as whatever is written back in between was read behind the page and
neither lists another channel nor chooses another thread (`undisturbed`). That is an invariant from
the load of the page on (`PointsBehind`), in which only the copies read behind it matter.

Both are proved by what a view writes back (`Viewed.honest`, `Viewed.points`), a step and a run, and
are put together in `posts_to_page_thread`. Titles are assumed to be distinct, as two threads of
one title are one entry of the dict; what happens without that is in `Names`.
-/

set_option autoImplicit false

namespace MessagesApp.Interfaz

open Py Lib

variable {s s' : State} {c₀ : Session} {tr : List Step} {idOf : String → String}

/-! ## Dicts -/

theorem mem_of_dictOf {l : List (String × String)} {name v : String}
    (h : dictOf l name = some v) : (name, v) ∈ l := by
  obtain ⟨l₁, l₂, hl, -⟩ := List.lookup_eq_some_iff.mp h
  rw [← List.mem_reverse, hl]
  exact List.mem_append_right _ List.mem_cons_self

theorem dictOf_of_mem {l : List (String × String)} {name : String}
    (h : name ∈ l.map Prod.fst) : ∃ v, dictOf l name = some v := by
  obtain ⟨x, hx, rfl⟩ := List.mem_map.mp h
  exact Option.isSome_iff_exists.mp
    (List.lookup_isSome_iff.mpr ⟨x, List.mem_reverse.mpr hx, beq_self_eq_true _⟩)

/-- Threads with the ids that their titles have. A function for all lists says that titles are
distinct within each, and that none is given to another thread later. -/
def Named (idOf : String → String) (u : Upstream) : Prop := ∀ x ∈ u.hilos, x.1 = idOf x.2

theorem Named.dictOf {u : Upstream} (h : Named idOf u) {title id : String}
    (hid : dictOf (u.hilos.map Prod.swap) title = some id) : id = idOf title := by
  obtain ⟨x, hx, he⟩ := List.mem_map.mp (mem_of_dictOf hid)
  cases he
  exact h x hx

theorem Named.dictOf_of_mem {u : Upstream} (h : Named idOf u) {title : String}
    (hmem : title ∈ u.hilos.map Prod.snd) :
    Interfaz.dictOf (u.hilos.map Prod.swap) title = some (idOf title) := by
  have hfst : title ∈ (u.hilos.map Prod.swap).map Prod.fst := by
    rw [List.map_map]
    exact hmem
  obtain ⟨v, hv⟩ := Interfaz.dictOf_of_mem hfst
  rw [hv, h.dictOf hv]

/-! ## A post goes to a thread that was chosen -/

/-- The thread of this title is chosen on `hilos`, at the answer of the request that posts it. -/
def Chooses (t : Step) (title : String) : Prop :=
  ∃ i u action c, t.event = .answer i u ∧
    t.pre.reqs i = some (.hilosPost action (some title), .loaded c) ∧
    onParticipants action = false

/-- It was chosen in the run, or by the session it began with. -/
def Chosen (c₀ : Session) (tr : List Step) (title : String) : Prop :=
  c₀.hiloActual = some title ∨ ∃ t ∈ tr, Chooses t title

/-- A session whose threads have the ids of their titles and whose thread was chosen. Title and dict
may be of different tabs. -/
structure Honest (idOf : String → String) (chosen : String → Prop) (c : Session) : Prop where
  ids : ∀ d, c.hilosAll = some d → ∀ title id, d title = some id → id = idOf title
  chosen : ∀ title, c.hiloActual = some title → chosen title

/-- Titles are distinct: a title has one id, wherever it is listed. -/
structure DistinctTitles (idOf : String → String) (c₀ : Session) (tr : List Step) : Prop where
  session : ∀ d, c₀.hilosAll = some d → ∀ title id, d title = some id → id = idOf title
  answers : ∀ t ∈ tr, ∀ i u, t.event = .answer i u → Named idOf u

theorem Honest.threadId {chosen : String → Prop} {c : Session} {id : String}
    (h : Honest idOf chosen c) (hid : threadId c = some id) :
    ∃ title, c.hiloActual = some title ∧ (∃ d, c.hilosAll = some d ∧ d title = some (idOf title)) ∧
      id = stripped (idOf title) := by
  simp only [Interfaz.threadId, Option.bind_eq_bind, Option.bind_eq_some_iff,
    Option.some.injEq] at hid
  obtain ⟨d, hd, title, htitle, v, hv, rfl⟩ := hid
  have hid := h.ids d hd title v hv
  subst hid
  exact ⟨title, htitle, ⟨d, hd, hv⟩, rfl⟩

theorem Honest.mono {chosen chosen' : String → Prop} {c : Session}
    (h : Honest idOf chosen c) (hle : ∀ title, chosen title → chosen' title) :
    Honest idOf chosen' c := ⟨h.ids, fun title ht => hle title (h.chosen title ht)⟩

theorem Honest.listed {chosen : String → Prop} {c : Session} {u : Upstream}
    (h : Honest idOf chosen c) (hu : Named idOf u) :
    Honest idOf chosen { c with hilosAll := some (dictOf (u.hilos.map Prod.swap)) } := by
  refine ⟨fun d hd title id hid => ?_, h.chosen⟩
  cases hd
  exact hu.dictOf hid

/-- What a view writes back is honest, if what it read was. -/
theorem Viewed.honest {chosen : String → Prop} {r : Request} {c c' : Session} {u : Upstream}
    {o : Outcome} (h : Viewed c u r o) (hc : Honest idOf chosen c) (hu : Named idOf u)
    (hchosen : ∀ action title, r = .hilosPost action (some title) →
      onParticipants action = false → chosen title)
    (ho : o.save = some c') : Honest idOf chosen c' := by
  cases h with
  | nothing => cases ho
  | main =>
    cases ho
    exact ⟨hc.ids, hc.chosen⟩
  | chat =>
    cases ho
    exact ⟨hc.ids, hc.chosen⟩
  | listed =>
    cases ho
    exact hc.listed hu
  | participants =>
    cases ho
    exact hc.listed hu
  | chosen hon =>
    cases ho
    refine ⟨(hc.listed hu).ids, fun title ht => ?_⟩
    cases ht
    exact hchosen _ title rfl hon
  | page => cases ho
  | posted => cases ho

theorem Viewed.calls {r : Request} {c : Session} {u : Upstream} {o : Outcome}
    (h : Viewed c u r o) {call : Call} (hcall : call ∈ o.calls) :
    threadId c = some call.threadId := by
  cases h with
  | nothing => simp [Outcome.nothing] at hcall
  | main => simp [Outcome.saved] at hcall
  | chat => simp [Outcome.saved] at hcall
  | listed => simp [Outcome.saved] at hcall
  | participants => simp [Outcome.saved] at hcall
  | chosen => simp [Outcome.saved] at hcall
  | page => simp at hcall
  | @posted page mensaje archivos id userId hid =>
    rw [hid, Option.some.injEq]
    unfold composerCalls at hcall
    split at hcall
    · simp at hcall
    · split at hcall
      · simp at hcall
      · rcases List.mem_cons.mp hcall with rfl | hcall
        · rfl
        · split at hcall
          · simp at hcall
          · obtain ⟨f, -, rfl⟩ := List.mem_map.mp hcall
            rfl

/-- Every session of a state is honest, and every call went where it should. The copies are in it,
as any of them may be written back. -/
structure HonestState (idOf : String → String) (chosen : String → Prop) (s : State) : Prop where
  session : Honest idOf chosen s.session
  copies : ∀ i r c, s.reqs i = some (r, .loaded c) → Honest idOf chosen c
  calls : ∀ x ∈ s.calls, ∃ title, chosen title ∧ x.2.threadId = stripped (idOf title)

theorem honest_step {chosen chosen' : String → Prop} {e : Event}
    (h : HonestState idOf chosen s) (hle : ∀ title, chosen title → chosen' title)
    (hchosen : ∀ title, Chooses ⟨s, e, s'⟩ title → chosen' title)
    (hu : ∀ i u, e = .answer i u → Named idOf u) (he : next s e = some s') :
    HonestState idOf chosen' s' := by
  obtain ⟨hsession, hcopies⟩ := copies_step (K := fun _ => True) (fun c hc => hc.mono hle)
    h.session (fun i r c _ hi => h.copies i r c hi) (fun i u r c c' hev hi hsave =>
      ⟨trivial, fun hc => (viewed r c u).honest (hc.mono hle) (hu i u hev)
        (fun action title hr hon => hchosen title ⟨i, u, action, c, hev, hr ▸ hi, hon⟩) hsave⟩) he
  refine ⟨hsession, fun i r c hi => hcopies i r c trivial hi, fun x hx => ?_⟩
  rcases calls_step he hx with hx | ⟨u, r, c, hi, hcall⟩
  · obtain ⟨title, ht, hid⟩ := h.calls x hx
    exact ⟨title, hle title ht, hid⟩
  · have hc := h.copies x.1 r c hi
    obtain ⟨title, ht, -, hid⟩ := hc.threadId ((viewed r c u).calls hcall)
    exact ⟨title, hle title (hc.chosen title ht), hid⟩

theorem honest_of_run (h : Run next (.init c₀) tr s) (hd : DistinctTitles idOf c₀ tr) :
    HonestState idOf (Chosen c₀ tr) s := by
  refine h.historyInv (C := fun t => ∀ i u, t.event = .answer i u → Named idOf u)
    (I := fun tr s => HonestState idOf (Chosen c₀ tr) s) ?_ ?_ hd.answers
  · refine ⟨⟨hd.session, fun _ ht => Or.inl ht⟩, ?_, ?_⟩
    · intro i r c hi
      cases hi
    · intro x hx
      cases hx
  · intro tr m e s _ hI he hu
    refine honest_step hI (fun title ht => ?_) (fun title ht => ?_) hu he
    · rcases ht with ht | ⟨t, htr, ht⟩
      · exact Or.inl ht
      · exact Or.inr ⟨t, List.mem_append_left _ htr, ht⟩
    · exact Or.inr ⟨_, List.mem_append_right _ List.mem_cons_self, ht⟩

/-! ## A post to the thread of its page -/

/-- A session of this user that names the thread of this title. -/
structure Points (userId title id : String) (c : Session) : Prop where
  userId : c.userId = some userId
  hilo : c.hiloActual = some title
  hilos : ∃ d, c.hilosAll = some d ∧ d title = some id

theorem Points.threadId {userId title id : String} {c : Session} (h : Points userId title id c) :
    threadId c = some (stripped id) := by
  obtain ⟨d, hd, hid⟩ := h.hilos
  simp [Interfaz.threadId, hd, h.hilo, hid]

/-- The request lists no other channel than that of the thread, and chooses no other thread. Listing
is any request of `hilos`, since it writes the threads of the channel the session is at. -/
def keeps (title : String) (u : Upstream) : Request → Bool
  | .hilos => (u.hilos.map Prod.snd).contains title
  | .hilosPost action hilo =>
      (u.hilos.map Prod.snd).contains title && (onParticipants action || hilo == some title)
  | _ => true

/-- If the session is written back at `t`, it was read behind `g`, and by a request that keeps to
the thread. A copy that was read before `g` may name another thread, whatever its request does. -/
def undisturbed (g : Step) (title : String) (t : Step) : Bool :=
  match t.event with
  | .load .. => true
  | .answer i u => match t.pre.reqs i with
      | some (r, .loaded c) => ((view r c u).getD .nothing).save.isNone ||
          ((g.post.reqs i).isNone && keeps title u r)
      | _ => true

/-- What a view that keeps to the thread writes back names the thread, if what it read did. -/
theorem Viewed.points {userId title : String} {r : Request} {c c' : Session} {u : Upstream}
    {o : Outcome} (h : Viewed c u r o) (hc : Points userId title (idOf title) c)
    (hu : Named idOf u) (hkeeps : keeps title u r = true) (ho : o.save = some c') :
    Points userId title (idOf title) c' := by
  have hlists : (u.hilos.map Prod.snd).contains title = true →
      dictOf (u.hilos.map Prod.swap) title = some (idOf title) := by
    intro hmem
    exact hu.dictOf_of_mem (List.contains_iff_mem.mp hmem)
  cases h with
  | nothing => cases ho
  | main =>
    cases ho
    exact ⟨hc.userId, hc.hilo, hc.hilos⟩
  | chat =>
    cases ho
    exact ⟨hc.userId, hc.hilo, hc.hilos⟩
  | listed =>
    cases ho
    exact ⟨hc.userId, hc.hilo, _, rfl, hlists hkeeps⟩
  | participants =>
    cases ho
    exact ⟨hc.userId, hc.hilo, _, rfl, hlists (Bool.and_eq_true_iff.mp hkeeps).1⟩
  | chosen hon =>
    cases ho
    obtain ⟨hmem, hchoice⟩ := Bool.and_eq_true_iff.mp hkeeps
    rw [hon, Bool.false_or, beq_iff_eq] at hchoice
    exact ⟨hc.userId, hchoice, _, rfl, hlists hmem⟩
  | page => cases ho
  | posted => cases ho

/-- The session names the thread, and so do the copies that were read behind `g`. -/
structure PointsBehind (g : Step) (userId title id : String) (s : State) : Prop where
  session : Points userId title id s.session
  copies : ∀ i r c, g.post.reqs i = none → s.reqs i = some (r, .loaded c) →
    Points userId title id c

theorem points_step {g : Step} {userId title : String} {e : Event}
    (h : PointsBehind g userId title (idOf title) s)
    (hkeeps : undisturbed g title ⟨s, e, s'⟩ = true) (hu : ∀ i u, e = .answer i u → Named idOf u)
    (he : next s e = some s') : PointsBehind g userId title (idOf title) s' := by
  obtain ⟨hsession, hcopies⟩ := copies_step (fun c hc => hc) h.session h.copies (by
    intro i u r c c' hev hi hsave
    subst hev
    simp only [undisturbed, hi, hsave, Option.isNone_some, Bool.false_or, Bool.and_eq_true,
      Option.isNone_iff_eq_none] at hkeeps
    exact ⟨hkeeps.1, fun hc => (viewed r c u).points hc (hu i u rfl) hkeeps.2 hsave⟩) he
  exact ⟨hsession, hcopies⟩

theorem points_of_run {g : Step} {userId title : String} {b : List Step}
    (h : Run next g.post b s) (hg : Points userId title (idOf title) g.post.session)
    (hkeeps : ∀ t ∈ b, undisturbed g title t = true)
    (hu : ∀ t ∈ b, ∀ i u, t.event = .answer i u → Named idOf u) :
    PointsBehind g userId title (idOf title) s := by
  refine h.historyInv
    (C := fun t => undisturbed g title t = true ∧ ∀ i u, t.event = .answer i u → Named idOf u)
    (I := fun _ s => PointsBehind g userId title (idOf title) s) ?_ ?_ ?_
  · refine ⟨hg, fun i r c hnew hi => ?_⟩
    rw [hnew] at hi
    cases hi
  · intro _ m e s _ hI he hC
    exact points_step hI hC.1 hC.2 he
  · intro t ht
    exact ⟨hkeeps t ht, hu t ht⟩

theorem load_post {i : Nat} {r : Request} (h : next s (.load i r) = some s') :
    s'.session = s.session ∧ s'.reqs i = some (r, .loaded s.session) := by
  rcases next_cases h with ⟨j, r', he, -, rfl⟩ | ⟨_, _, _, _, _, he, -⟩
  · cases he
    exact ⟨rfl, Function.update_self ..⟩
  · cases he

/-- **A post goes to a thread that was chosen, and to its page's while nothing disturbs it.** Over
every interleaving of the requests of any number of tabs. The second part is of a page asked for at
`g`, posted from at `p` and answered at `q`, with nothing in between that disturbs the thread. -/
theorem posts_to_page_thread (h : Run next (.init c₀) tr s) (hd : DistinctTitles idOf c₀ tr) :
    (∀ x ∈ s.calls, ∃ title, Chosen c₀ tr title ∧ x.2.threadId = stripped (idOf title)) ∧
    ∀ a g b p d q e k j mensaje archivos u id, tr = a ++ g :: (b ++ p :: (d ++ q :: e)) →
      -- the page is asked for at `g`, posted from at `p`, and the post is answered at `q`
      g.event = .load k .mensajes → p.event = .load j (.mensajesPost k mensaje archivos) →
      q.event = .answer j u → renderedFor p.pre k = some id →
      (∀ title, g.pre.session.hiloActual = some title → ∀ t ∈ b, undisturbed g title t = true) →
      ∃ userId, g.pre.session.userId = some userId ∧ q.post.calls = q.pre.calls ++
        (composerCalls id userId mensaje archivos u.mensajeId).map (j, ·) := by
  refine ⟨(honest_of_run h hd).calls, ?_⟩
  intro a g b p d q e k j mensaje archivos u id htr hge hpe hqe hpage hquiet
  subst htr
  obtain ⟨hra, hg, hrest⟩ := h.cut
  obtain ⟨hrb, hp, hrest⟩ := hrest.cut
  obtain ⟨hrd, hq, -⟩ := hrest.cut
  rw [hge] at hg
  rw [hpe] at hp
  rw [hqe] at hq
  obtain ⟨hgs, hgk⟩ := load_post hg
  -- the page is of the thread its session named
  obtain ⟨hid, userId, huser, hne⟩ :
      threadId g.pre.session = some id ∧ ∃ userId, g.pre.session.userId = some userId ∧ userId ≠ "" := by
    rcases loaded_of_run hrb hgk with hk | ⟨v, hk⟩
    · rw [renderedFor, hk] at hpage
      cases hpage
    · rw [renderedFor, hk] at hpage
      exact view_mensajes hpage
  have hhonest := (honest_of_run hra
    ⟨hd.session, fun t ht => hd.answers t (List.mem_append_left _ ht)⟩).session
  obtain ⟨title, htitle, hhilos, rfl⟩ := hhonest.threadId hid
  -- and so is what the post reads
  have hpoints : PointsBehind g userId title (idOf title) p.pre := points_of_run hrb
    (by rw [hgs]; exact ⟨huser, htitle, hhilos⟩) (hquiet title htitle)
    (fun t ht => hd.answers t (List.mem_append_right _ (List.mem_cons_of_mem _
      (List.mem_append_left _ ht))))
  obtain ⟨-, hpj⟩ := load_post hp
  refine ⟨userId, huser, ?_⟩
  rcases next_cases hq with ⟨_, _, he, -⟩ | ⟨i, v, r, c, o, he, hi, ho, hs'⟩
  · cases he
  · cases he
    rcases loaded_of_run hrd hpj with hj | ⟨_, hj⟩
    · rw [hj] at hi
      cases hi
      rw [view_mensajesPost hpoints.session.userId hne hpoints.session.threadId] at ho
      rw [hs', ← ho]
      rfl
    · rw [hj] at hi
      cases hi

/-! ## Two tabs -/

def ana : Session where
  userId := some "u1"
  user := some "ana"
  canalesAll := some (dictOf [("inf326", "c1")])
  canalesMios := some (dictOf [])
  chatActual := some "inf326"
  hilosAll := none
  hiloActual := none

def upstream : Upstream where
  chats := [("inf326", "c1")]
  mios := []
  hilos := [("t1", "certamenes"), ("t2", "controles")]
  mensajeId := "m1"

def idOfTitle (title : String) : String := if title = "certamenes" then "t1" else "t2"

/-- A request that is answered before any other reads the session. -/
def alone (i : Nat) (r : Request) : List Event := [.load i r, .answer i upstream]

/-- A tab chooses `certamenes`, loads its page and posts from it; another one did `r` in between. -/
def twoTabs (r : Request) : List Event :=
  alone 0 (.hilosPost none (some "certamenes")) ++ alone 1 .mensajes ++ alone 2 r ++
    alone 3 (.mensajesPost 1 (some "hola") ["nota.pdf"])

theorem distinctTitles_twoTabs {r : Request} (h : tr.map Transition.event = twoTabs r) :
    DistinctTitles idOfTitle ana tr := by
  refine ⟨?_, fun t ht i u he => ?_⟩
  · intro d hd
    cases hd
  have hmem : t.event ∈ twoTabs r := by
    rw [← h]
    exact List.mem_map_of_mem ht
  rw [he] at hmem
  obtain ⟨-, hu⟩ : (i = 0 ∨ i = 1 ∨ i = 2 ∨ i = 3) ∧ u = upstream := by
    simpa [twoTabs, alone, ← or_and_right] using hmem
  subst hu
  show ∀ x ∈ [("t1", "certamenes"), ("t2", "controles")], x.1 = idOfTitle x.2
  decide

theorem posts_to_page_thread_main : ∃ tr s q, tr.map Transition.event = twoTabs .main ∧
    Run next (.init ana) tr s ∧ q ∈ tr ∧ q.post.calls = q.pre.calls ++
      [(3, .enviarMensaje "t1" "u1" "hola"), (3, .subirArchivo "m1" "t1" "nota.pdf")] := by
  have hrun : (exec next (.init ana) (twoTabs .main)).isSome := by decide +kernel
  obtain ⟨s, hs⟩ := Option.isSome_iff_exists.mp hrun
  obtain ⟨htr, h⟩ := Run.of_exec hs
  have hcut : trace next (.init ana) (twoTabs .main) =
      (trace next (.init ana) (twoTabs .main)).take 2 ++
        (trace next (.init ana) (twoTabs .main))[2] ::
          (((trace next (.init ana) (twoTabs .main)).drop 3).take 3 ++
            (trace next (.init ana) (twoTabs .main))[6] ::
              ([] ++ (trace next (.init ana) (twoTabs .main))[7] :: [])) := rfl
  obtain ⟨userId, huser, hcalls⟩ := (posts_to_page_thread h (distinctTitles_twoTabs htr)).2
    _ _ _ _ _ _ _ 1 3 (some "hola") ["nota.pdf"] upstream "t1" hcut rfl rfl rfl rfl (by
      intro title htitle
      cases htitle
      decide +kernel)
  cases huser
  exact ⟨_, s, _, htr, h, List.getElem_mem _, hcalls⟩

/-- The other tab has chosen `controles` in between, and the message goes there, with its file. -/
theorem post_to_other_thread : ∃ tr s,
    tr.map Transition.event = twoTabs (.hilosPost none (some "controles")) ∧
      Run next (.init ana) tr s ∧ DistinctTitles idOfTitle ana tr ∧ renderedFor s 1 = some "t1" ∧
      s.calls = [(3, .enviarMensaje "t2" "u1" "hola"), (3, .subirArchivo "m1" "t2" "nota.pdf")] := by
  have hrun : (exec next (.init ana) (twoTabs (.hilosPost none (some "controles")))).map
      (fun s => (renderedFor s 1, s.calls)) = some (some "t1",
        [(3, .enviarMensaje "t2" "u1" "hola"), (3, .subirArchivo "m1" "t2" "nota.pdf")]) := by
    decide +kernel
  obtain ⟨s, hs, hq⟩ := Option.map_eq_some_iff.mp hrun
  obtain ⟨htr, h⟩ := Run.of_exec hs
  obtain ⟨hpage, hcalls⟩ := Prod.mk.inj hq
  exact ⟨_, s, htr, h, distinctTitles_twoTabs htr, hpage, hcalls⟩

end MessagesApp.Interfaz
