import MessagesApp.Interfaz.Chatbot
import MessagesApp.Interfaz.OneView
import MessagesApp.Interfaz.Usuarios
import MessagesApp.Lib.SessionStore

/-!
# Whose session it is

The whole web interface on Django's session store: logging in and out, the pages of the channels and
threads, and the chatbots, for any number of browsers and tabs. A request brings the cookie it has.
Django reads the session when a view first asks for a key, writes it back whole behind a view that
set one and did not end in a 500, and answers a write to a deleted session with a 400. That is
`Lib.SessionStore`; here it runs the views of `core/views.py`, each of which has its own module
(`app`).

`home` and `create_user` set the four keys of a user in the session as it is: they neither delete it
nor give it a new key. So who is logged in under a key, and whose conversations with the bots a
session holds, depends on the logins that the key has seen, and two statements can be made.

Without any condition: the identity of a session is that of one login under its key, as are the
senders of its conversations (`session_owned`). That is an invariant of the store and of every copy,
by what a view writes back (`Saves`).

Where everybody logs out before the next one logs in, a key sees one login at most
(`logged_unique`), and its session is that user's from the first moment to the last
(`session_private`).

Sessions that expire are left out: the store keeps a session until it is flushed. So is what a
cookie is; a browser may send the one it has, or none, at any time.
-/

set_option autoImplicit false

namespace MessagesApp.Sessions

open Py Lib SessionStore
open Usuarios (Identity)

/-- The keys of the session, by the views that use them. -/
structure Session where
  /-- `token`, `token_type`, `user` and `user_id`, which are only ever set together. -/
  identity : Option Identity
  canalesAll : Option (OrderedDict String Pages.Canal)
  canalesMios : Option (OrderedDict String Pages.Canal)
  chatActual : Option (Option String)
  hilosAll : Option (OrderedDict String String)
  hiloActual : Option (Option String)
  /-- the keys that begin with `chat_` -/
  chats : String → Option (List Chatbot.Entry)

def Session.empty : Session := ⟨none, none, none, none, none, none, fun _ => none⟩

/-- `user_id` where it is one: the views ask `if not user_id`. -/
def Session.userId (c : Session) : Option String :=
  c.identity.bind fun i => if i.userId.truthy then some i.userId.toStr else none

def Session.user (c : Session) : Option String := c.identity.map fun i => i.user.toStr

/-- The session as the views of the pages use it, where a user id that counts as false is none. -/
def Session.pages (c : Session) : Pages.Session :=
  ⟨c.userId, c.user, c.canalesAll, c.canalesMios, c.chatActual, c.hilosAll, c.hiloActual⟩

/-- What the pages write back; they never set a key of the identity. -/
def Session.withPages (c : Session) (p : Pages.Session) : Session :=
  { c with
    canalesAll := p.canalesAll
    canalesMios := p.canalesMios
    chatActual := p.chatActual
    hilosAll := p.hilosAll
    hiloActual := p.hiloActual }

/-- The session as `chatbot_view` uses it. -/
def Session.bots (c : Session) : Chatbot.Session := ⟨c.userId, c.user, c.chats⟩

def Session.withBots (c : Session) (b : Chatbot.Session) : Session := { c with chats := b.chats }

/-- A request to any view of `core/views.py`. -/
inductive Request
  | usuarios (r : Usuarios.Request)
  | pages (r : Pages.Request)
  /-- `chatsbots`; with the choice, where it is posted -/
  | chatsbots (eleccion : Option (Option String))
  | bot (r : Chatbot.Request)

inductive Response
  | usuarios (r : Usuarios.Response)
  | pages (r : Pages.Response)
  /-- `redirect("home")` -/
  | home
  | chatsbots (error : Option String)
  /-- `redirect("chatbot_view", tipo)` -/
  | chat (tipo : String)
  | bot (r : Chatbot.Response)
  /-- an exception -/
  | serverError

/-- What the upstream services answer to one request. -/
structure Upstream where
  usuarios : Usuarios.Upstream
  pages : Pages.Replies
  gateways : Chatbot.Gateways

/-- What the views have from elsewhere. -/
structure Env where
  texts : Usuarios.Texts
  bots : Chatbot.Utils

/-- `chatsbots`: a bot of the list is gone to, and for any other choice the list is shown again with
an error. -/
def chatsbots (eleccion : Option (Option String)) : Response :=
  match eleccion with
  | none => .chatsbots none
  | some (some tipo) =>
      if tipo ∈ Chatbot.validChatbots then .chat tipo
      else .chatsbots (some "Chatbot no reconocido")
  | some none => .chatsbots (some "Chatbot no reconocido")

/-- A view, on the session it read: what it does to the stored one, and what it answers. An
exception is a 500, behind which no session is saved. -/
def view (E : Env) : Request → Upstream → Session → Effect Session × Response
  | .usuarios r, u, c =>
      match Usuarios.view E.texts u.usuarios (c.identity.map Identity.userId) r with
      | .error _ => (.keep, .serverError)
      | .ok o => (match o.effect with
          | .nothing => .keep
          | .logIn i => .save { c with identity := some i }
          | .flush => .flush, .usuarios o.response)
  | .pages r, u, c =>
      match Pages.view r c.pages u.pages with
      | .error _ => (.keep, .serverError)
      | .ok o => (match o.save with
          | none => .keep
          | some p => .save (c.withPages p), .pages o.response)
  | .chatsbots eleccion, _, c =>
      match c.userId with
      | none => (.keep, .home)
      | some _ => (.keep, chatsbots eleccion)
  | .bot r, u, c =>
      let o := Chatbot.chatbotView E.bots c.bots r u.gateways
      (match o.save with
        | none => .keep
        | some b => .save (c.withBots b), .bot o.response)

/-- The web interface. -/
def app (E : Env) : App Session Request Upstream Response := ⟨.empty, view E⟩

abbrev State := SessionStore.State Session Request Response
abbrev Event := SessionStore.Event Request Upstream
abbrev Step := Transition State Event

/-- What the pages write back is kept whole. -/
theorem pages_withPages {c : Session} {r : Pages.Request} {u : Pages.Replies} {o : Pages.Outcome}
    {p : Pages.Session} (h : Pages.view r c.pages u = .ok o) (hs : o.save = some p) :
    (c.withPages p).pages = p := by
  obtain ⟨hid, huser, -⟩ := Pages.view_save h hs
  cases p
  cases hid
  cases huser
  rfl

/-! ## Logins -/

/-- At this step a request logged `i` in, under the key `k`: the key of its cookie, or the next
unused one where it came without a session. -/
def LogInStep (t : Step) (k : Nat) (i : Identity) : Prop :=
  ∃ j u r key c username password, t.event = .answer j u ∧
    t.pre.reqs j = some (.usuarios r, .loaded key c) ∧ k = key.getD t.pre.used ∧
    r.credentials = some (username, password) ∧ Usuarios.LogsIn u.usuarios username password i ∧
    ∃ c', t.post.store k = some c' ∧ c'.identity = some i

/-- In the run `i` logged in under `k`. -/
def Logged (tr : List Step) (k : Nat) (i : Identity) : Prop := ∃ t ∈ tr, LogInStep t k i

variable {E : Env} {s s' : State} {tr tr' : List Step} {k : Nat} {i j : Identity}

theorem Logged.append (h : Logged tr k i) : Logged (tr ++ tr') k i := by
  obtain ⟨t, ht, hlog⟩ := h
  exact ⟨t, List.mem_append_left _ ht, hlog⟩

theorem logged_snoc {t : Step} : Logged (tr ++ [t]) k i ↔ Logged tr k i ∨ LogInStep t k i := by
  simp [Logged, or_and_right, exists_or]

/-- The session under `k` is of a user who logged in there, and so are its conversations. A later
login replaces the identity and leaves the conversations, hence two logins. -/
structure Owned (tr : List Step) (k : Nat) (c : Session) : Prop where
  identity : ∃ i, c.identity = some i ∧ Logged tr k i
  chats : ∀ key entries, c.chats key = some entries → ∀ e ∈ entries,
    e.sender = "bot" ∨ ∃ i, Logged tr k i ∧ e.sender = i.user.toStr

theorem Owned.append {c : Session} (h : Owned tr k c) : Owned (tr ++ tr') k c := by
  obtain ⟨⟨i, hi, hlog⟩, hchats⟩ := h
  refine ⟨⟨i, hi, hlog.append⟩, fun key entries hkey e he => ?_⟩
  exact (hchats key entries hkey e he).imp_right fun ⟨j, hj, hs⟩ => ⟨j, hj.append, hs⟩

theorem Session.user_of_identity {c : Session} (h : c.identity = some i) :
    c.user = some i.user.toStr := by
  unfold Session.user
  rw [h, Option.map_some]

/-- What a view writes back: a login, a page's own keys, or one more exchange with a bot. One case
for each family of views. -/
inductive Saves (E : Env) (u : Upstream) (c : Session) : Request → Session → Prop
  | logIn {r : Usuarios.Request} {username password : Option String} {i : Identity} :
      r.credentials = some (username, password) →
      Usuarios.LogsIn u.usuarios username password i →
      Saves E u c (.usuarios r) { c with identity := some i }
  | page {r : Pages.Request} {p : Pages.Session} : c.userId ≠ none →
      Saves E u c (.pages r) (c.withPages p)
  | exchange {r : Chatbot.Request} {x : Chatbot.Exchange} : c.userId ≠ none →
      x.sender = c.user.getD "Tú" → Saves E u c (.bot r) (c.withBots (c.bots.add x))

theorem saves {r : Request} {u : Upstream} {c c' : Session} (h : (view E r u c).1 = .save c') :
    Saves E u c r c' := by
  cases r with
  | usuarios r =>
    simp only [view] at h
    split at h
    · cases h
    · rename_i o ho
      simp only at h
      split at h
      · cases h
      · rename_i i hi
        cases h
        obtain ⟨username, password, hcred, hlog⟩ := Usuarios.view_logIn ho hi
        exact .logIn hcred hlog
      · cases h
  | pages r =>
    simp only [view] at h
    split at h
    · cases h
    · rename_i o ho
      simp only at h
      split at h
      · cases h
      · rename_i p hp
        cases h
        exact .page (Pages.view_save ho hp).2.2
  | chatsbots eleccion =>
    simp only [view] at h
    split at h <;> cases h
  | bot r =>
    simp only [view] at h
    split at h
    · cases h
    · rename_i b hb
      cases h
      obtain ⟨hsave, -, -⟩ := Chatbot.chatbotView_spec (U := E.bots) (c := c.bots) (r := r)
        (g := u.gateways)
      rw [hsave, Option.map_eq_some_iff] at hb
      obtain ⟨x, hx, rfl⟩ := hb
      unfold Chatbot.exchange at hx
      split at hx
      · cases hx
      · rename_i hred
        obtain ⟨msg, -, rfl⟩ := Option.map_eq_some_iff.mp hx
        refine .exchange ?_ rfl
        intro hnone
        have hid : c.bots.userId = none := hnone
        rw [Chatbot.chatbotView, hid] at hred
        exact hred rfl

/-- What is written back is owned where the copy was. -/
theorem owned_save {r : Request} {u : Upstream} {key : Option Nat} {c c' : Session} {n : Nat}
    {t : Step} (hcopy : ∀ k, key = some k → Owned tr k c) (hfresh : key = none → c = .empty)
    (hsave : Saves E u c r c') (ht : t.event = .answer n u)
    (hreq : t.pre.reqs n = some (r, .loaded key c))
    (hstored : t.post.store (key.getD t.pre.used) = some c') :
    Owned (tr ++ [t]) (key.getD t.pre.used) c' := by
  -- a request that is of nobody has nothing to write but a login
  have hsome : c.userId ≠ none → ∃ k, key = some k := by
    intro hid
    cases key with
    | none =>
      rw [hfresh rfl] at hid
      exact absurd rfl hid
    | some k => exact ⟨k, rfl⟩
  cases hsave with
  | @logIn r username password i hcred hlog =>
    have hstep : LogInStep t (key.getD t.pre.used) i :=
      ⟨n, u, r, key, c, username, password, ht, hreq, rfl, hcred, hlog, _, hstored, rfl⟩
    refine ⟨⟨i, rfl, logged_snoc.mpr (Or.inr hstep)⟩, fun key' entries hkey e he => ?_⟩
    cases key with
    | none =>
      rw [hfresh rfl] at hkey
      cases hkey
    | some k => exact (hcopy k rfl).append.chats key' entries hkey e he
  | page hid =>
    obtain ⟨k, rfl⟩ := hsome hid
    exact ⟨(hcopy k rfl).append.identity, (hcopy k rfl).append.chats⟩
  | @exchange r x hid hsender =>
    obtain ⟨k, rfl⟩ := hsome hid
    have hold : Owned (tr ++ [t]) k c := (hcopy k rfl).append
    refine ⟨hold.identity, fun key' entries hkey e he => ?_⟩
    change Function.update c.chats ("chat_" ++ x.tipo)
      (some (c.bots.historial x.tipo ++ x.entries)) key' = some entries at hkey
    rcases update_cases hkey with ⟨-, rfl⟩ | ⟨-, hkey⟩
    · rcases List.mem_append.mp he with he | he
      · unfold Chatbot.Session.historial at he
        cases hentries : c.bots.chats ("chat_" ++ x.tipo) with
        | none =>
          rw [hentries] at he
          cases he
        | some entries =>
          rw [hentries] at he
          exact hold.chats _ entries hentries e he
      · obtain ⟨i, hi, hlog⟩ := hold.identity
        have hname : x.sender = i.user.toStr := by
          rw [hsender, Session.user_of_identity hi, Option.getD_some]
        rcases List.mem_cons.mp he with rfl | he
        · exact Or.inr ⟨i, hlog, hname⟩
        · rw [List.mem_singleton.mp he]
          exact Or.inl rfl
    · exact hold.chats key' entries hkey e he

/-- **Every session is of a user who logged in under its key**, the last one or an earlier one: the
token, its type, the name and the id are those of one login, and nobody's message is in a
conversation who has not logged in there. The same holds of every copy under way. For every
interleaving of the requests of any number of browsers. -/
theorem session_owned (h : Run (next (app E)) .init tr s) : Everywhere (app E) (Owned tr) s := by
  refine everywhere_of_run (fun tr t k c hP => hP.append) ?_ h
  intro tr s n u r key c c' s' _ hreq hsave hcopy hfresh hstored
  exact owned_save (t := ⟨s, .answer n u, s'⟩) hcopy hfresh (saves hsave) rfl hreq hstored

/-! ## Behind a log-out -/

/-- A request that may log in comes without a session, as behind a `log_out`. A condition on the
copy that the request has read, not on what becomes of it. -/
def logsInFresh (t : Step) : Bool :=
  match t.event with
  | .answer n _ => match t.pre.reqs n with
      | some (.usuarios r, .loaded key _) => r.credentials.isNone || key.isNone
      | _ => true
  | _ => true

theorem LogInStep.fresh {t : Step} (h : LogInStep t k i) (hf : logsInFresh t = true) :
    k = t.pre.used := by
  obtain ⟨n, u, r, key, c, username, password, he, hreq, hk, hcred, -⟩ := h
  unfold logsInFresh at hf
  simp only [he, hreq, hcred, Option.isNone_some, Bool.false_or, Option.isNone_iff_eq_none] at hf
  rw [hk, hf, Option.getD_none]

/-- A key has seen one login at most, as a login without a session takes a key that was not used
before. -/
theorem logged_unique (h : Run (next (app E)) .init tr s) (hf : ∀ t ∈ tr, logsInFresh t = true) :
    (∀ k i, Logged tr k i → k < s.used) ∧ ∀ k i j, Logged tr k i → Logged tr k j → i = j := by
  refine h.historyInv (C := fun t => logsInFresh t = true)
    (I := fun tr s => (∀ k i, Logged tr k i → k < s.used) ∧
      ∀ k i j, Logged tr k i → Logged tr k j → i = j) ?_ ?_ hf
  · refine ⟨fun k i h => ?_, fun k i j h => ?_⟩
    · obtain ⟨t, ht, -⟩ := h
      cases ht
    · obtain ⟨t, ht, -⟩ := h
      cases ht
  · intro tr m e m' hrun ⟨hlt, huniq⟩ he hC
    have hgiven : Given m' := given_of_run (hrun.snoc he)
    have hused : m.used ≤ m'.used := by
      rcases next_cases he with ⟨_, _, _, -, -, rfl⟩ | ⟨_, _, _, _, _, _, _, _, -, -, hclosed, rfl⟩
      · exact le_refl _
      · cases hclosed with
        | created => exact Nat.le_succ _
        | same => exact le_refl _
        | written => exact le_refl _
        | flushed => exact le_refl _
    -- a new login is under a key that was not in use
    have hnew : ∀ k i, LogInStep ⟨m, e, m'⟩ k i → k = m.used := fun k i hlog => hlog.fresh hC
    refine ⟨fun k i hlog => ?_, fun k i j hi hj => ?_⟩
    · rcases logged_snoc.mp hlog with hold | hlog
      · exact lt_of_lt_of_le (hlt k i hold) hused
      · obtain ⟨-, -, -, -, -, -, -, -, -, -, -, -, c', hst, -⟩ := hlog
        exact hgiven.lt hst
    · rcases logged_snoc.mp hi with hi | hi
      · rcases logged_snoc.mp hj with hj | hj
        · exact huniq k i j hi hj
        · exact absurd (hnew k j hj) (Nat.ne_of_lt (hlt k i hi))
      · rcases logged_snoc.mp hj with hj | hj
        · exact absurd (hnew k i hi) (Nat.ne_of_lt (hlt k j hj))
        · obtain ⟨-, -, -, -, -, -, -, -, -, -, -, -, c₁, hst₁, hid₁⟩ := hi
          obtain ⟨-, -, -, -, -, -, -, -, -, -, -, -, c₂, hst₂, hid₂⟩ := hj
          rw [hst₁, Option.some.injEq] at hst₂
          rw [hst₂, hid₂, Option.some.injEq] at hid₁
          exact hid₁.symm

/-- **Where everybody logs out first, a session is one user's.** From its first moment to its last
it has the same token, name and id; its conversations are between that user and the bots; and once
it is gone no request that still has a copy of it brings it back. -/
theorem session_private (h : Run (next (app E)) .init tr s)
    (hf : ∀ t ∈ tr, logsInFresh t = true) :
    (∀ tr₁ tr₂ m, tr = tr₁ ++ tr₂ → Run (next (app E)) .init tr₁ m → ∀ k,
      (∀ c c', m.store k = some c → s.store k = some c' → c'.identity = c.identity) ∧
      (k < m.used → m.store k = none → s.store k = none)) ∧
    ∀ k c, s.store k = some c → ∀ key entries, c.chats key = some entries → ∀ e ∈ entries,
      e.sender = "bot" ∨ c.user = some e.sender := by
  obtain ⟨-, huniq⟩ := logged_unique h hf
  have hown := session_owned h
  refine ⟨fun tr₁ tr₂ m htr hm k => ⟨fun c c' hc hc' => ?_, fun hk hn => ?_⟩,
    fun k c hc key entries hkey e he => ?_⟩
  · obtain ⟨i, hi, hlog⟩ := ((session_owned hm).stored k c hc).identity
    obtain ⟨j, hj, hlog'⟩ := (hown.stored k c' hc').identity
    have hlogm : Logged tr k i := by
      rw [htr]
      exact hlog.append
    rw [hi, hj, huniq k i j hlogm hlog']
  · subst htr
    obtain ⟨m', hm', hrest⟩ := h.split
    have hmm : m = m' := hm.state_unique hm'
    subst hmm
    exact gone_stays hrest hk hn
  · obtain ⟨⟨i, hi, hlog⟩, hchats⟩ := hown.stored k c hc
    rcases hchats key entries hkey e he with hbot | ⟨j, hj, hs⟩
    · exact Or.inl hbot
    · rw [Session.user_of_identity hi, hs, huniq k i j hlog hj]
      exact Or.inr rfl

/-- Texts as they come, and one gateway. -/
def sampleEnv : Env where
  texts := ⟨fun _ => "", fun _ => ""⟩
  bots := ⟨fun _ => "", ["https://gateway"]⟩

/-- The users API knows one user; everything else is empty. -/
def upstreamOf (id username : String) : Upstream where
  usuarios
    | .logIn .. => .response 200 "" (.ok (.dict [("access_token", .str ("t-" ++ id)),
        ("token_type", .str "bearer")]))
    | .obtenerUsuario _ => .response 200 "" (.ok (.dict [("id", .str id),
        ("username", .str username)]))
    | _ => .response 200 "" (.ok (.dict []))
  pages := ⟨.success [], .success [], none, [], .ok (), none, none⟩
  gateways _ := .ok ⟨"application/json", 200, some (.dict [("reply", .str "hola")]), ""⟩

/-- `felipe` logs in, asks a bot in one tab and logs out in another while the bot thinks; then
`ana` logs in. -/
def twoUsers : List Event :=
  [.load 0 none (.usuarios (.homePost none (some "felipe") (some "1") none none)),
    .answer 0 (upstreamOf "u1" "felipe"),
    .load 1 (some 0) (.bot ⟨"academico", .post (some "hola") true⟩),
    .load 2 (some 0) (.usuarios .logOut),
    .answer 2 (upstreamOf "u1" "felipe"),
    .answer 1 (upstreamOf "u1" "felipe"),
    .load 3 (some 0) (.usuarios (.homePost none (some "ana") (some "2") none none)),
    .answer 3 (upstreamOf "u2" "ana"),
    .load 4 (some 1) (.bot ⟨"academico", .post (some "buenas") true⟩),
    .answer 4 (upstreamOf "u2" "ana")]

theorem session_private_twoUsers : ∃ tr s, tr.map Transition.event = twoUsers ∧
    Run (next (app sampleEnv)) .init tr s ∧ (s.store 0).isNone ∧ (s.store 1).isSome ∧
    ∀ k c, s.store k = some c → ∀ key entries, c.chats key = some entries → ∀ e ∈ entries,
      e.sender = "bot" ∨ c.user = some e.sender := by
  have hrun : (exec (next (app sampleEnv)) .init twoUsers).map (fun s =>
      ((s.store 0).isNone, (s.store 1).isSome)) = some (true, true) := by
    decide +kernel
  obtain ⟨s, hs, hstores⟩ := Option.map_eq_some_iff.mp hrun
  obtain ⟨htr, h⟩ := Run.of_exec hs
  obtain ⟨hgone, hthere⟩ := Prod.mk.inj hstores
  have hf : (trace (next (app sampleEnv)) .init twoUsers).all logsInFresh = true := by
    decide +kernel
  exact ⟨_, s, htr, h, hgone, hthere, (session_private h (List.all_eq_true.mp hf)).2⟩

theorem session_owned_twoUsers : ∃ tr s, tr.map Transition.event = twoUsers ∧
    Run (next (app sampleEnv)) .init tr s ∧ Everywhere (app sampleEnv) (Owned tr) s := by
  have hrun : (exec (next (app sampleEnv)) .init twoUsers).isSome := by
    decide +kernel
  obtain ⟨s, hs⟩ := Option.isSome_iff_exists.mp hrun
  obtain ⟨htr, h⟩ := Run.of_exec hs
  exact ⟨_, s, htr, h, session_owned h⟩

end MessagesApp.Sessions
