import MessagesApp.Interfaz.Canales
import MessagesApp.Interfaz.Sessions

/-!
# What a session reaches

The views of the pages act on ids that the session has: `mod_chat` on those of `canales_mios`,
`hilos` and `mod_hilos` on that of the channel in `canales_all`, `mensajes` and `mod_hilos` on those
of `hilos_all`. The upstream services are asked with no token, so what a user can reach is what the
session holds. Here is where that comes from, in the runs of the whole web interface: the dicts of
channels from the replies to an earlier `main` under the same key, the dict of threads from a reply
to `hilos` for one of these channels.

The invariant of the store is `Provided`, of the stored sessions and of every copy: each id in a
dict was listed for a user who logged in under the key. It goes together with `Owned` of `Sessions`,
which says who that can be (`provided_of_run`). What a page writes back is `Wrote` of `OneView`, so
that the step is a case analysis over three cases (`provided_pages`). The ids that the calls of a
view carry are `Uses`, and the theorem about them is `acts_on_listed`.

It says of an id that it was listed, not that it still is: a user who has left a channel reaches it
until `main` lists the channels again. And it says so of the user of the session only where
everybody logs out first, because a login into a session with another user's dicts keeps them.

The channels and threads APIs answer as `Canales` has it, each request what it finds (`Replied`);
what they answer to a call that changes something plays no part.
-/

set_option autoImplicit false

namespace MessagesApp.Reach

open Py Lib SessionStore
open Interfaz (stripped)
open Pages (Call Channel Form Outcome Uses does_view isModChat)
open Usuarios (Identity)
open Sessions (Env Logged Owned State Step app logsInFresh)
open Canales (CanalesApi Listed)

/-! ## Where the dicts come from -/

/-- What a page is answered with comes from the APIs, each request's from what it found there. A
reply that `hilos` cannot read ends in an exception, and leaves the session as an unanswered request
does. `apis n` are the APIs as the request `n` finds them. -/
structure Replied (apis : Nat → CanalesApi) (t : Step) : Prop where
  main : ∀ n u key c userId, t.event = .answer n u →
    t.pre.reqs n = some (.pages (.ajax .main), .loaded key c) → c.userId = some userId →
    ∃ v, u.pages = Canales.replies (apis n) userId v
  hilos : ∀ n u r key c o chan, t.event = .answer n u →
    t.pre.reqs n = some (.pages r, .loaded key c) → Pages.view r c.pages u.pages = .ok o →
    .getHilosAPI chan ∈ o.calls → Canales.titulados ((apis n).threads chan) = .ok u.pages.hilos

def FromApis (apis : Nat → CanalesApi) (tr : List Step) : Prop := ∀ t ∈ tr, Replied apis t

/-- At this step `main` had these lists for a user, under the key `k`: those that it reads out of
the replies for the user id of its copy. -/
def ListsStep (apis : Nat → CanalesApi) (t : Step) (k : Nat) (i : Identity)
    (chats mios : List Channel) : Prop :=
  ∃ n u c, t.event = .answer n u ∧
    t.pre.reqs n = some (.pages (.ajax .main), .loaded (some k) c) ∧ c.identity = some i ∧
    Listed (apis n) i.userId.toStr chats mios

/-- The channels API said that the user is a member of this channel. -/
def Member (apis : Nat → CanalesApi) (tr : List Step) (k : Nat) (i : Identity) (id : String) : Prop :=
  ∃ t ∈ tr, ∃ chats mios, ListsStep apis t k i chats mios ∧ ∃ a ∈ chats, a.id = id

/-- The channels API said that the user owns this channel, and the channel that it is active. -/
def Own (apis : Nat → CanalesApi) (tr : List Step) (k : Nat) (i : Identity) (id : String) : Prop :=
  ∃ t ∈ tr, ∃ chats mios, ListsStep apis t k i chats mios ∧ ∃ a ∈ mios, a.id = id

/-- The threads API listed this thread, asked for those of a channel of the user. -/
def ThreadOf (apis : Nat → CanalesApi) (tr : List Step) (k : Nat) (i : Identity) (id : String) :
    Prop :=
  ∃ chan, Member apis tr k i chan ∧ ∃ t ∈ tr, ∃ n u r c, t.event = .answer n u ∧
    t.pre.reqs n = some (.pages r, .loaded (some k) c) ∧
    Canales.HasThread (apis n) (stripped chan) id

/-- What is in the dicts was listed for a user who has logged in under the key. One entry may be of
an earlier login than the next. -/
structure Provided (apis : Nat → CanalesApi) (tr : List Step) (k : Nat) (c : Pages.Session) :
    Prop where
  mios : ∀ d name canal, c.canalesMios = some d → d.get? name = some canal →
    ∃ i, Logged tr k i ∧ Own apis tr k i canal.id
  todos : ∀ d name canal, c.canalesAll = some d → d.get? name = some canal →
    ∃ i, Logged tr k i ∧ Member apis tr k i canal.id
  hilos : ∀ d title id, c.hilosAll = some d → d.get? title = some id →
    ∃ i, Logged tr k i ∧ ThreadOf apis tr k i id

variable {apis : Nat → CanalesApi} {tr tr' : List Step} {k : Nat} {i : Identity} {id : String}
  {chats mios : List Channel} {r : Pages.Request}

theorem Member.append (h : Member apis tr k i id) : Member apis (tr ++ tr') k i id := by
  obtain ⟨t, ht, h⟩ := h
  exact ⟨t, List.mem_append_left _ ht, h⟩

theorem Own.append (h : Own apis tr k i id) : Own apis (tr ++ tr') k i id := by
  obtain ⟨t, ht, h⟩ := h
  exact ⟨t, List.mem_append_left _ ht, h⟩

theorem ThreadOf.append (h : ThreadOf apis tr k i id) : ThreadOf apis (tr ++ tr') k i id := by
  obtain ⟨chan, hchan, t, ht, h⟩ := h
  exact ⟨chan, hchan.append, t, List.mem_append_left _ ht, h⟩

theorem Provided.append {c : Pages.Session} (h : Provided apis tr k c) :
    Provided apis (tr ++ tr') k c := by
  refine ⟨fun d name canal hd hget => ?_, fun d name canal hd hget => ?_,
    fun d title id hd hget => ?_⟩
  · obtain ⟨i, hlog, hown⟩ := h.mios d name canal hd hget
    exact ⟨i, hlog.append, hown.append⟩
  · obtain ⟨i, hlog, hmem⟩ := h.todos d name canal hd hget
    exact ⟨i, hlog.append, hmem.append⟩
  · obtain ⟨i, hlog, hthread⟩ := h.hilos d title id hd hget
    exact ⟨i, hlog.append, hthread.append⟩

/-- Only the three dicts count: what a login or a bot writes back leaves them. -/
theorem Provided.congr {c c' : Pages.Session} (h : Provided apis tr k c)
    (hall : c'.canalesAll = c.canalesAll) (hmios : c'.canalesMios = c.canalesMios)
    (hhilos : c'.hilosAll = c.hilosAll) : Provided apis tr k c' :=
  ⟨by rw [hmios]; exact h.mios, by rw [hall]; exact h.todos, by rw [hhilos]; exact h.hilos⟩

theorem provided_empty : Provided apis tr k Sessions.Session.empty.pages :=
  ⟨fun _ _ _ h => (by cases h), fun _ _ _ h => (by cases h), fun _ _ _ h => (by cases h)⟩

/-- The channel that the session is at is one of the user's. -/
theorem Provided.channel {c : Pages.Session} {chan : String} (h : Provided apis tr k c)
    (hchan : Pages.channelId c = .ok chan) : ∃ i, Logged tr k i ∧ Member apis tr k i chan := by
  obtain ⟨d, name, canal, hd, -, hget, rfl⟩ := Pages.channelId_eq_ok.mp hchan
  exact h.todos d name canal hd hget

theorem userId_of_identity {c : Sessions.Session} (hi : c.identity = some i)
    (hid : c.userId ≠ none) : c.userId = some i.userId.toStr := by
  unfold Sessions.Session.userId at hid ⊢
  rw [hi, Option.bind_some] at hid ⊢
  split
  · rfl
  · rename_i hfalse
    rw [if_neg hfalse] at hid
    exact absurd rfl hid

/-- **What a page writes back was listed**, for the user of the copy or before. -/
theorem provided_pages {n : Nat} {r : Pages.Request} {u : Sessions.Upstream}
    {c : Sessions.Session} {o : Outcome} {p : Pages.Session} {t : Step}
    (hapis : FromApis apis (tr ++ [t])) (hown : Owned tr k c) (hprov : Provided apis tr k c.pages)
    (hview : Pages.view r c.pages u.pages = .ok o) (hsave : o.save = some p)
    (ht : t.event = .answer n u)
    (hreq : t.pre.reqs n = some (.pages r, .loaded (some k) c)) :
    Provided apis (tr ++ [t]) k p := by
  have hlast : t ∈ tr ++ [t] := List.mem_append_right _ (List.mem_singleton_self t)
  have hold : Provided apis (tr ++ [t]) k c.pages := hprov.append
  obtain ⟨i, hi, hlog⟩ := hown.identity
  cases (does_view hview).save p hsave with
  | @lists chats mios hr hchats hmios =>
    subst hr
    obtain ⟨-, -, hid⟩ := Pages.view_save hview hsave
    have huser : c.userId = some i.userId.toStr := userId_of_identity hi hid
    obtain ⟨v, hv⟩ := (hapis t hlast).main n u (some k) c _ ht hreq huser
    have hlisted : Listed (apis n) i.userId.toStr chats mios := by
      rw [hv] at hchats hmios
      exact Canales.listed_of_lists hchats hmios
    have hstep : ListsStep apis t k i chats mios := ⟨n, u, c, ht, hreq, hi, hlisted⟩
    refine ⟨fun d name canal hd hget => ?_, fun d name canal hd hget => ?_, hold.hilos⟩
    · cases hd
      obtain ⟨a, ha, -, rfl⟩ := Pages.mem_of_byName hget
      exact ⟨i, hlog.append, t, hlast, chats, mios, hstep, a, ha, rfl⟩
    · cases hd
      obtain ⟨a, ha, -, rfl⟩ := Pages.mem_of_byName hget
      exact ⟨i, hlog.append, t, hlast, chats, mios, hstep, a, ha, rfl⟩
  | @threads chan hilo hchan hcall =>
    refine ⟨hold.mios, hold.todos, fun d title id hd hget => ?_⟩
    cases hd
    obtain ⟨j, hj, hmember⟩ := hold.channel hchan
    have hread := (hapis t hlast).hilos n u r (some k) c o _ ht hreq hview hcall
    exact ⟨j, hj, chan, hmember, t, hlast, n, u, r, c, ht, hreq,
      Canales.hasThread_of_mem hread (Pages.mem_of_byTitle hget)⟩
  | chosen => exact hold.congr rfl rfl rfl

/-- What is written back comes from a page, or leaves the dicts as they are. -/
theorem saved_cases {E : Env} {r : Sessions.Request} {u : Sessions.Upstream}
    {c c' : Sessions.Session} (h : (Sessions.view E r u c).1 = .save c') :
    (∃ q o, r = .pages q ∧ Pages.view q c.pages u.pages = .ok o ∧ o.save = some c'.pages) ∨
    c'.canalesAll = c.canalesAll ∧ c'.canalesMios = c.canalesMios ∧ c'.hilosAll = c.hilosAll := by
  cases r with
  | pages q =>
    simp only [Sessions.view] at h
    split at h
    · cases h
    · rename_i o ho
      simp only at h
      split at h
      · cases h
      · rename_i p hp
        cases h
        exact Or.inl ⟨q, o, rfl, ho, by rw [Sessions.pages_withPages ho hp]; exact hp⟩
  | usuarios q => cases Sessions.saves h with
    | logIn => exact Or.inr ⟨rfl, rfl, rfl⟩
  | bot q => cases Sessions.saves h with
    | exchange => exact Or.inr ⟨rfl, rfl, rfl⟩
  | chatsbots eleccion => cases Sessions.saves h

/-- Whose a session is, and where its dicts come from; of every stored session and every copy, in
every run. -/
theorem provided_of_run {E : Env} {s : State} (h : Run (next (app E)) .init tr s) :
    Everywhere (app E) (fun k c => FromApis apis tr → Owned tr k c ∧ Provided apis tr k c.pages)
      s := by
  refine everywhere_of_run (P := fun tr k c => FromApis apis tr → Owned tr k c ∧
    Provided apis tr k c.pages) ?_ ?_ h
  · intro tr t k c hP hapis
    obtain ⟨hown, hprov⟩ := hP fun t' ht' => hapis t' (List.mem_append_left _ ht')
    exact ⟨hown.append, hprov.append⟩
  · intro tr s n u r key c c' s' _ hreq hsave hcopy hfresh hstored hapis
    have hbefore : FromApis apis tr := fun t' ht' => hapis t' (List.mem_append_left _ ht')
    refine ⟨Sessions.owned_save (t := ⟨s, .answer n u, s'⟩) (fun k hk => (hcopy k hk hbefore).1)
      hfresh (Sessions.saves hsave) rfl hreq hstored, ?_⟩
    rcases saved_cases hsave with ⟨q, o, rfl, hview, ho⟩ | ⟨hall, hmios, hhilos⟩
    · cases key with
      | none =>
        rw [hfresh rfl] at hview
        exact absurd rfl (Pages.view_save hview ho).2.2
      | some k =>
        obtain ⟨hown, hprov⟩ := hcopy k rfl hbefore
        exact provided_pages (t := ⟨s, .answer n u, s'⟩) hapis hown hprov hview ho rfl hreq
    · cases key with
      | none =>
        rw [hfresh rfl] at hall hmios hhilos
        exact provided_empty.congr hall hmios hhilos
      | some k => exact (hcopy k rfl hbefore).2.append.congr hall hmios hhilos

/-! ## What a request acts on -/

/-- What a user can reach through a call: a channel of `mod_chat` is an active one of the user's
own, any other is one that the user is a member of, and a thread is one of such a channel. `strip`
may have been called on the id. -/
inductive Reachable (apis : Nat → CanalesApi) (tr : List Step) (k : Nat) (i : Identity)
    (r : Pages.Request) (call : Call) : Prop
  | quiet : call.channel? = none → call.thread? = none → Reachable apis tr k i r call
  | own {id : String} : isModChat r = true → call.channel? = some id → Own apis tr k i id →
      Reachable apis tr k i r call
  | member {id chan : String} : isModChat r = false → call.channel? = some id →
      Member apis tr k i chan → (id = chan ∨ id = stripped chan) → Reachable apis tr k i r call
  | thread {id raw : String} : call.thread? = some id → ThreadOf apis tr k i raw →
      (id = raw ∨ id = stripped raw) → Reachable apis tr k i r call

/-- Whatever a call acts on, one user could reach it. -/
theorem reachable_of_uses {c : Sessions.Session} {call : Call} (hown : Owned tr k c)
    (hprov : Provided apis tr k c.pages) (huses : Uses c.pages r call) :
    ∃ j, Logged tr k j ∧ Reachable apis tr k j r call := by
  cases huses with
  | quiet hchannel hthread =>
    obtain ⟨i, -, hlog⟩ := hown.identity
    exact ⟨i, hlog, .quiet hchannel hthread⟩
  | mio hmod hchannel hmios =>
    obtain ⟨d, name, canal, hd, hget, rfl⟩ := hmios
    obtain ⟨j, hj, howned⟩ := hprov.mios d name canal hd hget
    exact ⟨j, hj, .own hmod hchannel howned⟩
  | channel hmod hchannel hof =>
    obtain ⟨chan, hchan, hstrip⟩ := hof
    obtain ⟨j, hj, hmember⟩ := hprov.channel hchan
    exact ⟨j, hj, .member hmod hchannel hmember hstrip⟩
  | thread hthread hof =>
    obtain ⟨d, title, raw, hd, hget, hstrip⟩ := hof
    obtain ⟨j, hj, hlisted⟩ := hprov.hilos d title raw hd hget
    exact ⟨j, hj, .thread hthread hlisted hstrip⟩

/-- **What a request acts on was listed for its user**, by the channels API and the threads API,
behind an earlier request under the same key; for the one whose session it is, where everybody logs
out before the next one logs in, and else for one who has logged in there. Every browser and every
tab may have its requests under way, with copies of their sessions as old as they are. -/
theorem acts_on_listed {E : Env} {s : State} (h : Run (next (app E)) .init tr s)
    (hapis : FromApis apis tr) {n : Nat} {u : Sessions.Upstream} {key : Option Nat}
    {c : Sessions.Session} {o : Outcome} (hreq : s.reqs n = some (.pages r, .loaded key c))
    (hview : Pages.view r c.pages u.pages = .ok o) (hcalls : o.calls ≠ []) :
    ∃ k i, key = some k ∧ c.identity = some i ∧ ∀ call ∈ o.calls,
      ∃ j, Logged tr k j ∧ Reachable apis tr k j r call ∧
        ((∀ t ∈ tr, logsInFresh t = true) → j = i) := by
  have heverywhere : Everywhere (app E) (fun k c => FromApis apis tr → Owned tr k c ∧
      Provided apis tr k c.pages) s := provided_of_run h
  cases key with
  | none =>
    -- a request without a session is sent home
    rw [heverywhere.fresh n _ c hreq] at hview
    cases hview
    exact absurd rfl hcalls
  | some k =>
    obtain ⟨hown, hprov⟩ := heverywhere.copied n _ k c hreq hapis
    obtain ⟨i, hi, hlog⟩ := hown.identity
    refine ⟨k, i, rfl, hi, fun call hcall => ?_⟩
    obtain ⟨j, hj, hreach⟩ := reachable_of_uses hown hprov ((does_view hview).calls call hcall)
    exact ⟨j, hj, hreach, fun hf => (Sessions.logged_unique h hf).2 k j i hj hlog⟩

/-- `felipe` logs in, has his channels listed, and is about to delete one. -/
def oneUser : List Sessions.Event :=
  [.load 0 none (.usuarios (.homePost none (some "felipe") (some "1") none none)),
    .answer 0 upstream,
    .load 1 (some 0) (.pages (.ajax .main)),
    .answer 1 upstream,
    .load 2 (some 0) (.pages (.post .modChat form))]
where
  upstream : Sessions.Upstream :=
    { Sessions.upstreamOf "u1" "felipe" with
      pages := Canales.replies Canales.sampleApi "u1"
        { (Sessions.upstreamOf "u1" "felipe").pages with hilos := [("t1", "saludos")] } }
  form : Form := ⟨none, some "general", some "delete", none, none, none, none, none, none, []⟩

theorem fromApis_oneUser (htr : tr.map Transition.event = oneUser) :
    FromApis (fun _ => Canales.sampleApi) tr := by
  intro t ht
  have hpages : ∀ n u, t.event = .answer n u → u = oneUser.upstream := by
    intro n u he
    have hmem : t.event ∈ oneUser := htr ▸ List.mem_map_of_mem ht
    rw [he] at hmem
    simp only [oneUser, List.mem_cons, List.not_mem_nil, or_false, reduceCtorEq, false_or,
      Event.answer.injEq] at hmem
    rcases hmem with ⟨-, hu⟩ | ⟨-, hu⟩
    · exact hu
    · exact hu
  refine ⟨fun n u key c userId he _ _ => ?_, fun n u r key c o chan he _ _ _ => ?_⟩
  · exact ⟨{ (Sessions.upstreamOf "u1" "felipe").pages with hilos := [("t1", "saludos")] },
      hpages n u he ▸ rfl⟩
  · rw [hpages n u he]
    rfl

/-- A page that is under way, with its key, and the calls that it makes. -/
def callsOf (s : State) (n : Nat) (u : Sessions.Upstream) :
    Option (Pages.Request × Option Nat × List Call) :=
  match s.reqs n with
  | some (.pages r, .loaded key c) => match Pages.view r c.pages u.pages with
      | .ok o => some (r, key, o.calls)
      | .error _ => none
  | _ => none

theorem callsOf_eq_some {s : State} {n : Nat} {u : Sessions.Upstream} {r : Pages.Request}
    {key : Option Nat} {calls : List Call} (h : callsOf s n u = some (r, key, calls)) :
    ∃ c o, s.reqs n = some (.pages r, .loaded key c) ∧ Pages.view r c.pages u.pages = .ok o ∧
      o.calls = calls := by
  unfold callsOf at h
  split at h
  · rename_i r' key' c hreq
    split at h
    · rename_i o ho
      cases h
      exact ⟨c, o, hreq, ho, rfl⟩
    · cases h
  · cases h

theorem acts_on_listed_oneUser : ∃ tr s, tr.map Transition.event = oneUser ∧
    Run (next (app Sessions.sampleEnv)) .init tr s ∧ (∀ t ∈ tr, logsInFresh t = true) ∧
    ∃ c o, s.reqs 2 = some (.pages (.post .modChat oneUser.form), .loaded (some 0) c) ∧
      Pages.view (.post .modChat oneUser.form) c.pages oneUser.upstream.pages = .ok o ∧
      o.calls = [.deleteChat "c1"] ∧ ∃ k i, some 0 = some k ∧ c.identity = some i ∧
      ∀ call ∈ o.calls, ∃ j, Logged tr k j ∧ Reachable (fun _ => Canales.sampleApi) tr k j
        (.post .modChat oneUser.form) call ∧ ((∀ t ∈ tr, logsInFresh t = true) → j = i) := by
  have hrun : (exec (next (app Sessions.sampleEnv)) .init oneUser).map (fun s =>
      callsOf s 2 oneUser.upstream) =
        some (some (.post .modChat oneUser.form, some 0, [.deleteChat "c1"])) := by
    decide +kernel
  obtain ⟨s, hs, hcallsOf⟩ := Option.map_eq_some_iff.mp hrun
  obtain ⟨htr, h⟩ := Run.of_exec hs
  obtain ⟨c, o, hreq, hview, hcalls⟩ := callsOf_eq_some hcallsOf
  have hf : (trace (next (app Sessions.sampleEnv)) .init oneUser).all logsInFresh = true := by
    decide +kernel
  exact ⟨_, s, htr, h, List.all_eq_true.mp hf, c, o, hreq, hview, hcalls,
    acts_on_listed h (fromApis_oneUser htr) hreq hview
      (by rw [hcalls]; exact List.cons_ne_nil _ _)⟩

end MessagesApp.Reach
