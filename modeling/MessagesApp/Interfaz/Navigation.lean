import MessagesApp.Interfaz.Tab

/-!
# What a tab looks up

What the tab may follow next looks up names and keys in the session, without asking whether they are
there: `canales_mios` with a name in `mod_chat`, `canales_all` with `chat_actual` in `hilos`,
`hilos_all` with a title in `mod_hilos` and with `hilo_actual` in `mensajes`. Which of them have
been set depends on the way the tab has gone, on what the channels and threads APIs have answered on
it, and on the requests of `main`'s script: one that is answered late puts the session it read, and
its own lists, under a tab that has gone on. So there are runs in which a view raises
(`mod_chat_before_lists`), and `never_raises` is about the runs whose steps take nothing away.

What a page, or a request on its way, will look up is a `Need`; `needs`, `needsLoaded` and
`needsBehind` give it for each moment between the click and the page. `Orderly` is the condition on
one step, in terms of the state before it and of the answers that arrive:

* `mod_chat` is read behind a list of the channels;
* a channel that is chosen is in the list that the session has, and a thread in the one that the
  POST gets;
* a form of an earlier page is read while the session has what it goes by, as the tab may have been
  at another channel since;
* a late answer of the script leaves what the tab needs;
* a refresh is read while the tab is at its thread, or the thread is still listed.

Each can be decided, so that a run can be tested for it. Behind a `log_out` there is no condition:
every view sends the tab home.

`Inside` says that a tab that is logged in finds what it needs, and `Sound` adds every copy of the
session under way. It holds behind a login, and an orderly step keeps it and raises nothing
(`Sound.step`); what a view does for it is `view_keeps`, which goes through the views once.
-/

set_option autoImplicit false

namespace MessagesApp.Pages

open Lib Interfaz

/-! ## Needs -/

/-- Names that are looked up in `canales_mios` and in `hilos_all`, the channel of `chat_actual` and
the thread of `hilo_actual`. `none` is a dict that is not looked at; `some []` one that is only
rendered. -/
structure Need where
  mios : Option (List (Option String))
  channel : Bool
  titles : Option (List (Option String))
  thread : Bool

def Need.nothing : Need := ⟨none, false, none, false⟩

def Need.ofMios (l : List (Option String)) : Need := ⟨some l, false, none, false⟩

def Need.ofChannel : Need := ⟨none, true, none, false⟩

/-- `mod_hilos` makes threads too, in the channel, so that its need has both. -/
def Need.ofTitles (l : List (Option String)) : Need := ⟨none, true, some l, false⟩

def Need.ofThread : Need := ⟨none, false, none, true⟩

/-- The names that a page made of this session shows. -/
def Need.miosOf (c : Session) : Need :=
  ⟨c.canalesMios.map fun d => d.keys.map some, false, none, false⟩

def Need.titlesOf (c : Session) : Need :=
  ⟨none, true, c.hilosAll.map fun d => d.keys.map some, false⟩

/-- The dict is there, with these names. A name that a form did not have is in no dict. -/
def Has {α : Type} (d : Option (OrderedDict String α)) (l : List (Option String)) : Prop :=
  ∃ dict, d = some dict ∧ ∀ x ∈ l, ∃ name ∈ dict.keys, x = some name

/-- The session has everything of the need. A session that meets `ofChannel` also has `user` and
`canales_mios`, which `hilos` looks up as well (`AtChannel`). -/
structure Meets (n : Need) (c : Session) : Prop where
  mios : ∀ l, n.mios = some l → Has c.canalesMios l
  channel : n.channel = true → AtChannel c
  titles : ∀ l, n.titles = some l → Has c.hilosAll l
  thread : n.thread = true → ∃ id, currentThread c = .ok id

/-- What a request needs of the session it reads. The forms that create something look no name
up. -/
def needs : Request → Need
  | .get .main | .ajax .main => .nothing
  | .post .main form => if form.newChat = some "1" then .nothing else .ofMios []
  | .get .modChat | .ajax .modChat => .ofMios []
  | .post .modChat form => .ofMios (if form.action = some "create" then [] else [form.chat])
  | .get .hilos | .ajax .hilos | .post .hilos _ => .ofChannel
  | .get .modHilos | .ajax .modHilos => .ofTitles []
  | .post .modHilos form => .ofTitles (if form.action = some "create" then [] else [form.hilo])
  | .get .mensajes | .ajax .mensajes | .post .mensajes _ => .ofThread

/-- What a request needs of the session while it is on its way; `mod_chat` is told apart: `main`
offers it before the channels are listed, and what it needs comes from the condition. -/
def needsSent (r : Request) : Need := if r = .get .modChat then .nothing else needs r

/-- What the page of a request, made of the session it has read, will need of the session then. For
the view shows the names of its own copy, and the tab may have another session by the time it is
answered. -/
def needsLoaded : Request → Session → Need
  | .get .modChat, c | .ajax .modChat, c | .post .modChat _, c => .miosOf c
  | .get .modHilos, c | .ajax .modHilos, c | .post .modHilos _, c => .titlesOf c
  | .get .mensajes, _ | .ajax .mensajes, _ | .post .mensajes _, _ => .ofThread
  -- these write the session they have read
  | _, _ => .nothing

/-- What the forms of a page look up, by the names it shows. The names on `main` are looked up by
nothing but the condition, when one of them is chosen. -/
def needsPage : Page → Need
  | .main _ => .nothing
  | .modChat chats _ => .ofMios (chats.map some)
  | .hilos .. => .ofChannel
  | .modHilos hilos _ => .ofTitles (hilos.map some)
  | .mensajes .. => .ofThread

def needsBehind : Response → Need
  | .redirect v => needsSent (.get v)
  | .page p => needsPage p
  | _ => .nothing

/-- What a page that was shown has left for good: `canales_mios`, which no view takes away. The
names on the page, and the channel it was of, may be gone. -/
def needsAgain : Page → Need
  | .modChat .. | .hilos .. | .modHilos .. => .ofMios []
  | .main _ | .mensajes .. => .nothing

/-- What is known of the session where a form of an earlier page is followed. The rest of what the
form needs is in the condition, at the time it is read. -/
def needsBack : Request → Need
  | .post .modChat _ | .post .hilos _ | .post .modHilos _ => .ofMios []
  | .post .mensajes _ => .nothing
  | r => needsSent r

/-- What the tab may look up next, if all goes well: what its page offers, or the request under way,
from the session or from the copy that it has read. -/
def State.need (s : State) : Need :=
  match s.nav with
  | none => (s.page.map needsPage).getD .nothing
  | some nav => match nav.read with
      | none => if nav.back then needsBack nav.request else needsSent nav.request
      | some c => needsLoaded nav.request c

theorem need_become (s : State) (r : Response) : (s.become r).need = needsBehind r := by
  cases r with
  | page p => cases p <;> rfl
  | _ => rfl

/-! ## Conditions -/

/-- A request of the script has been answered with lists. -/
def Script.lists : Option Script → Bool
  | some (.answered (some (.json 200 d))) => d.error.isNone
  | _ => false

/-- The channels have been listed: before the login, or by a request of the script. -/
def MainListed (c₀ : Session) (s : State) : Prop :=
  c₀.canalesMios ≠ none ∨ ∃ k < s.shown, Script.lists (s.scripts k) = true

/-- The session that a request of the script writes back, with its own lists, leaves this. The lists
are those that have just been answered; `chat_actual` and the threads are of the copy, however
old. -/
structure Leaves (n : Need) (c : Session) (chats mios : List Channel) : Prop where
  mios : ∀ l ∈ n.mios, ∀ x ∈ l, ∃ m ∈ mios, x = some m.name
  channel : n.channel = true → ∃ a ∈ chats, c.chatActual = some (some a.name)
  titles : ∀ l ∈ n.titles, Has c.hilosAll l
  thread : n.thread = true → ∃ id, currentThread c = .ok id

/-- The session has what a form of an earlier page goes by: the name that it posts, and the channel
or the thread that the tab was at. A condition on the session and the form, as the view has not run
yet. -/
def Finds : Request → Session → Prop
  | .post .modChat form, c => form.action = some "create" ∨ Has c.canalesMios [form.chat]
  | .post .hilos _, c => ∃ id, channelId c = .ok id
  | .post .modHilos form, c => (∃ id, channelId c = .ok id) ∧
      Has c.hilosAll (if form.action = some "create" then [] else [form.hilo])
  | .post .mensajes _, c => ∃ id, currentThread c = .ok id
  | _, _ => True

/-- What is followed is read: `mod_chat` behind a list of the channels, a channel that is chosen
among those last listed, and a form of an earlier page while the session has what it goes by. A form
of the page itself needs no condition. -/
def ReadsWell (c₀ : Session) (s : State) (nav : Nav) : Prop :=
  match nav.request with
  | .get .modChat => MainListed c₀ s
  | .post .main form => form.newChat = some "1" ∨ Has s.session.canalesAll [form.chat]
  | r => nav.back = true → Finds r s.session

/-- A thread that is chosen is listed again by the view that it is chosen in: the POST of `hilos`
asks for the threads before it looks at the form, and keeps the new list. -/
def ListsAgain (u : Replies) : Request → Prop
  | .post .hilos form => onParticipants form.action = true ∨ form.newThread = some "1" ∨
      ∃ h ∈ u.hilos, form.hilo = some h.2
  | _ => True

def ChannelsReply.channels? : ChannelsReply → Option (List Channel)
  | .success channels => some channels
  | _ => none

def Script.loaded? : Script → Option Session
  | .loaded c => some c
  | _ => none

/-- A step that takes nothing away from under the tab: besides what is followed, a late answer to
the script leaves what the tab needs, and a refresh of `mensajes` is read while the tab is there or
its thread is still listed. What the other steps do needs no condition. -/
def Orderly (c₀ : Session) (s : State) : Event → Prop
  | .load => ∀ nav ∈ s.nav, nav.read = none → ReadsWell c₀ s nav
  | .answer u => ∀ nav ∈ s.nav, ListsAgain u nav.request
  | .scriptAnswer k u => ∀ c ∈ (s.scripts k).bind Script.loaded?, ∀ chats ∈ u.chats.channels?,
      ∀ mios ∈ u.mios.channels?, Leaves s.need c chats mios
  | .refreshLoad _ => s.need.thread = true ∨ ∃ id, currentThread s.session = .ok id
  | _ => True

variable {n : Need} {c c' c₀ stored : Session} {r : Request} {u : Replies} {s s' : State} {e : Event}
  {chats mios : List Channel} {form : Form} {userId : String} {nav : Nav}

/-! ### They can be checked -/

instance {α : Type} (d : Option (OrderedDict String α)) (l : List (Option String)) :
    Decidable (Has d l) :=
  match d with
  | none => isFalse fun ⟨_, h, _⟩ => nomatch h
  | some dict => decidable_of_iff (∀ x ∈ l, ∃ name ∈ dict.keys, x = some name)
      ⟨fun h => ⟨dict, rfl, h⟩, fun ⟨_, hd, h⟩ => (Option.some.inj hd).symm ▸ h⟩

instance decidableExistsOk {ε α : Type} (x : Except ε α) : Decidable (∃ a, x = .ok a) :=
  match x with
  | .ok a => isTrue ⟨a, rfl⟩
  | .error _ => isFalse fun ⟨_, h⟩ => nomatch h

instance (n : Need) (c : Session) (chats mios : List Channel) :
    Decidable (Leaves n c chats mios) :=
  decidable_of_iff ((∀ l ∈ n.mios, ∀ x ∈ l, ∃ m ∈ mios, x = some m.name) ∧
      (n.channel = true → ∃ a ∈ chats, c.chatActual = some (some a.name)) ∧
      (∀ l ∈ n.titles, Has c.hilosAll l) ∧ (n.thread = true → ∃ id, currentThread c = .ok id))
    ⟨fun ⟨h₁, h₂, h₃, h₄⟩ => ⟨h₁, h₂, h₃, h₄⟩, fun h => ⟨h.mios, h.channel, h.titles, h.thread⟩⟩

instance (c₀ : Session) (s : State) : Decidable (MainListed c₀ s) :=
  inferInstanceAs (Decidable (_ ∨ _))

instance : ∀ (r : Request) (c : Session), Decidable (Finds r c)
  | .post .modChat _, _ => inferInstanceAs (Decidable (_ ∨ _))
  | .post .hilos _, _ => inferInstanceAs (Decidable (∃ _, _))
  | .post .modHilos _, _ => inferInstanceAs (Decidable (_ ∧ _))
  | .post .mensajes _, _ => inferInstanceAs (Decidable (∃ _, _))
  | .post .main _, _ | .get _, _ | .ajax _, _ => isTrue trivial

instance (c₀ : Session) (s : State) : ∀ nav, Decidable (ReadsWell c₀ s nav)
  | ⟨.get .modChat, _, _⟩ => inferInstanceAs (Decidable (MainListed c₀ s))
  | ⟨.post .main _, _, _⟩ => inferInstanceAs (Decidable (_ ∨ _))
  | ⟨.post .modChat _, _, _⟩ | ⟨.post .hilos _, _, _⟩ | ⟨.post .modHilos _, _, _⟩
  | ⟨.post .mensajes _, _, _⟩ | ⟨.get .main, _, _⟩ | ⟨.get .hilos, _, _⟩ | ⟨.get .modHilos, _, _⟩
  | ⟨.get .mensajes, _, _⟩ | ⟨.ajax _, _, _⟩ => inferInstanceAs (Decidable (_ → Finds _ _))

instance (u : Replies) : ∀ r, Decidable (ListsAgain u r)
  | .post .hilos _ => inferInstanceAs (Decidable (_ ∨ _ ∨ _))
  | .post .main _ | .post .modChat _ | .post .modHilos _ | .post .mensajes _ | .get _ | .ajax _ =>
      isTrue trivial

instance (c₀ : Session) (s : State) : ∀ e, Decidable (Orderly c₀ s e)
  | .load => inferInstanceAs (Decidable (∀ nav ∈ s.nav, nav.read = none → ReadsWell c₀ s nav))
  | .answer u => inferInstanceAs (Decidable (∀ nav ∈ s.nav, ListsAgain u nav.request))
  | .scriptAnswer k u => inferInstanceAs (Decidable (∀ c ∈ (s.scripts k).bind Script.loaded?,
      ∀ chats ∈ u.chats.channels?, ∀ mios ∈ u.mios.channels?, Leaves s.need c chats mios))
  | .refreshLoad _ => inferInstanceAs (Decidable (_ ∨ _))
  | .click _ | .back _ | .leave | .logOut | .scriptLoad _ | .refresh _ | .refreshAnswer .. =>
      isTrue trivial

/-! ## Meeting them -/

theorem meets_nothing (c : Session) : Meets .nothing c :=
  ⟨nofun, nofun, nofun, nofun⟩

theorem meets_ofMios {l : List (Option String)} : Meets (.ofMios l) c ↔ Has c.canalesMios l := by
  constructor
  · intro h
    exact h.mios l rfl
  · intro h
    refine ⟨fun l' hl' => ?_, nofun, nofun, nofun⟩
    cases hl'
    exact h

theorem has_nil {α : Type} {d : Option (OrderedDict String α)} : Has d [] ↔ d ≠ none := by
  constructor
  · rintro ⟨dict, rfl, -⟩
    exact Option.some_ne_none dict
  · intro h
    obtain ⟨dict, hd⟩ := Option.ne_none_iff_exists'.mp h
    exact ⟨dict, hd, List.forall_mem_nil _⟩

theorem meets_ofMios_nil : Meets (.ofMios []) c ↔ c.canalesMios ≠ none :=
  meets_ofMios.trans has_nil

theorem meets_ofChannel : Meets .ofChannel c ↔ AtChannel c := by
  constructor
  · intro h
    exact h.channel rfl
  · intro h
    exact ⟨nofun, fun _ => h, nofun, nofun⟩

theorem meets_ofTitles {l : List (Option String)} :
    Meets (.ofTitles l) c ↔ AtChannel c ∧ Has c.hilosAll l := by
  constructor
  · intro h
    exact ⟨h.channel rfl, h.titles l rfl⟩
  · rintro ⟨hc, h⟩
    refine ⟨nofun, fun _ => hc, fun l' hl' => ?_, nofun⟩
    cases hl'
    exact h

theorem meets_ofThread : Meets .ofThread c ↔ ∃ id, currentThread c = .ok id := by
  constructor
  · intro h
    exact h.thread rfl
  · intro h
    exact ⟨nofun, nofun, nofun, fun _ => h⟩

theorem Has.mono {α : Type} {d : Option (OrderedDict String α)} {l l' : List (Option String)}
    (h : Has d l) (hl : ∀ x ∈ l', x ∈ l) : Has d l' := by
  obtain ⟨dict, hd, hnames⟩ := h
  exact ⟨dict, hd, fun x hx => hnames x (hl x hx)⟩

theorem has_keys {α : Type} (d : OrderedDict String α) : Has (some d) (d.keys.map some) := by
  refine ⟨d, rfl, fun x hx => ?_⟩
  obtain ⟨name, hname, rfl⟩ := List.mem_map.mp hx
  exact ⟨name, hname, rfl⟩

theorem Has.item {α : Type} {key : SessionKey} {d : OrderedDict String α} {x : Option String}
    (h : Has (some d) [x]) : ∃ a, item key d x = .ok a := by
  obtain ⟨dict, hd, hnames⟩ := h
  cases hd
  obtain ⟨name, hname, rfl⟩ := hnames x (List.mem_singleton_self x)
  obtain ⟨a, ha⟩ := OrderedDict.mem_keys.mp hname
  exact ⟨a, item_eq_ok.mpr ⟨name, rfl, ha⟩⟩

theorem Leaves.meets (h : Leaves n c chats mios) (hc : LoggedIn c) :
    Meets n (c.listed chats mios) := by
  refine ⟨fun l hl => ⟨byName mios, rfl, fun x hx => ?_⟩, fun hn => ?_, h.titles, h.thread⟩
  · obtain ⟨m, hm, rfl⟩ := h.mios l hl x hx
    exact ⟨m.name, mem_keys_byName.mpr ⟨m, hm, rfl⟩, rfl⟩
  · obtain ⟨a, ha, hchat⟩ := h.channel hn
    obtain ⟨b, -, -, hget⟩ := byName_get ha
    exact ⟨hc, ⟨_, channelId_eq_ok.mpr ⟨_, a.name, _, rfl, hchat, hget, rfl⟩⟩, Option.some_ne_none _⟩

theorem miosOf_eq {d : OrderedDict String Canal} (hd : c.canalesMios = some d) :
    Need.miosOf c = .ofMios (d.keys.map some) := by
  unfold Need.miosOf
  rw [hd]
  rfl

theorem titlesOf_eq {d : OrderedDict String String} (hd : c.hilosAll = some d) :
    Need.titlesOf c = .ofTitles (d.keys.map some) := by
  unfold Need.titlesOf
  rw [hd]
  rfl

theorem Meets.miosOf {l : List (Option String)} (h : Meets (.ofMios l) c) : Meets (.miosOf c) c := by
  obtain ⟨d, hd, -⟩ := meets_ofMios.mp h
  rw [miosOf_eq hd, meets_ofMios, hd]
  exact has_keys d

theorem Meets.titlesOf {l : List (Option String)} (h : Meets (.ofTitles l) c) :
    Meets (.titlesOf c) c := by
  obtain ⟨hc, d, hd, -⟩ := meets_ofTitles.mp h
  rw [titlesOf_eq hd, meets_ofTitles, hd]
  exact ⟨hc, has_keys d⟩

/-- A session that has been read meets what a page made of it will need. -/
theorem Meets.loaded (h : Meets (needs r) c) : Meets (needsLoaded r c) c := by
  match r with
  | .get .main | .ajax .main | .post .main _ => exact meets_nothing c
  | .get .modChat | .ajax .modChat | .post .modChat _ => exact Meets.miosOf h
  | .get .hilos | .ajax .hilos | .post .hilos _ => exact meets_nothing c
  | .get .modHilos | .ajax .modHilos | .post .modHilos _ => exact Meets.titlesOf h
  | .get .mensajes | .ajax .mensajes | .post .mensajes _ => exact h

/-! ## The views -/

/-- A view ends, what it answers needs no more than there is, and what it writes has the lists.
`stored` is the session that stays if the view writes none. -/
def Keeps (stored : Session) (out : Except KeyError Outcome) : Prop :=
  ∃ o, out = .ok o ∧ Meets (needsBehind o.response) (o.save.getD stored) ∧
    ∀ c', o.save = some c' → LoggedIn c' ∧ c'.canalesMios ≠ none

theorem keeps_unsaved {calls : List Call} {p : Response} (h : Meets (needsBehind p) stored) :
    Keeps stored (.ok ⟨none, calls, p⟩) :=
  ⟨_, rfl, h, fun _ h => by cases h⟩

theorem keeps_saved {calls : List Call} {p : Response} (hc : LoggedIn c) (hmios : c.canalesMios ≠ none)
    (h : Meets (needsBehind p) c) : Keeps stored (.ok ⟨some c, calls, p⟩) := by
  refine ⟨_, rfl, h, fun c' hc' => ?_⟩
  cases hc'
  exact ⟨hc, hmios⟩

theorem keeps_afterCall {call : Call} {done : Except ApiError Unit} {next : View}
    {page : ApiError → Except KeyError Response} (hnext : Meets (needsBehind (.redirect next)) stored)
    (hpage : ∀ e, ∃ p, page e = .ok p ∧ Meets (needsBehind p) stored) :
    Keeps stored (afterCall call done next page) := by
  unfold afterCall
  cases done with
  | ok => exact keeps_unsaved hnext
  | error e =>
    obtain ⟨p, hp, hmeets⟩ := hpage e
    simp only [hp]
    exact keeps_unsaved hmeets

/-- What the script is answered, with the session written back if the channels were listed. -/
theorem mainAjax_cases (c : Session) (userId : String) (u : Replies) :
    (∃ chats mios d, u.chats = .success chats ∧ u.mios = .success mios ∧
      (mainAjax c userId u).save = some (c.listed chats mios) ∧
      (mainAjax c userId u).response = .json 200 d ∧ d.error = none) ∨
    (mainAjax c userId u).save = none ∧ ∃ status d, (mainAjax c userId u).response = .json status d ∧
      d.chats = [] ∧ d.mios = [] ∧ d.error ≠ none := by
  cases hchats : u.chats with
  | success chats => cases hmios : u.mios with
    | success mios =>
      rw [mainAjax_success hchats hmios]
      exact Or.inl ⟨chats, mios, _, rfl, rfl, rfl, rfl, rfl⟩
    | _ => exact Or.inr (by simp [mainAjax, hchats, hmios])
  | _ => exact Or.inr (by cases hmios : u.mios <;> simp [mainAjax, hchats, hmios])

theorem mainPost_keeps (hc : LoggedIn c) (h : Meets (needs (.post .main form)) c)
    (hchat : form.newChat ≠ some "1" → Has c.canalesAll [form.chat]) :
    Keeps stored (.ok (mainPost c form)) := by
  unfold mainPost
  by_cases hnew : form.newChat = some "1"
  · rw [if_pos hnew]
    exact keeps_unsaved (meets_nothing _)
  · rw [if_neg hnew]
    rw [needs, if_neg hnew, meets_ofMios] at h
    obtain ⟨mios, hmios, -⟩ := h
    obtain ⟨canales, hall, hnames⟩ := hchat hnew
    obtain ⟨name, hname, hform⟩ := hnames _ (List.mem_singleton_self _)
    obtain ⟨canal, hget⟩ := OrderedDict.mem_keys.mp hname
    have hsome : c.canalesMios ≠ none := by rw [hmios]; exact Option.some_ne_none _
    refine keeps_saved hc hsome (meets_ofChannel.mpr ⟨hc, ⟨canal.id, ?_⟩, hsome⟩)
    exact channelId_eq_ok.mpr ⟨canales, name, canal, hall, congrArg some hform, hget, rfl⟩

/-- The page of `mod_chat` shows the owned channels that its view has read. -/
theorem modChatPage_meets {l : List (Option String)} (h : Meets (.ofMios l) c)
    (hst : Meets (.miosOf c) stored) (err : Option Err) :
    ∃ p, modChatPage c err = .ok p ∧ Meets (needsBehind p) stored := by
  obtain ⟨d, hd, -⟩ := meets_ofMios.mp h
  rw [miosOf_eq hd] at hst
  exact ⟨_, modChatPage_ok hd err, hst⟩

theorem modChatPost_keeps (h : Meets (needs (.post .modChat form)) c)
    (hst : Meets (.miosOf c) stored) : Keeps stored (modChatPost c userId form u) := by
  have hafter : ∀ call err, Keeps stored
      (afterCall call u.done .main fun e => modChatPage c (some (err, e.error))) :=
    fun call err => keeps_afterCall (meets_nothing _) fun e => modChatPage_meets h hst _
  unfold modChatPost
  rw [needs] at h
  split
  · exact hafter _ _
  · rename_i haction
    rw [if_neg haction] at h
    obtain ⟨d, hd, hnames⟩ := meets_ofMios.mp h
    obtain ⟨canal, hcanal⟩ : ∃ canal, item .canalesMios d form.chat = .ok canal :=
      Has.item ⟨d, rfl, hnames⟩
    rw [hd]
    simp only [lookup, hcanal, bind, Except.bind]
    split
    · exact hafter _ _
    · exact hafter _ _
    · exact hafter _ _
    · exact hafter _ _
    · exact keeps_unsaved (meets_nothing _)

/-- A session at a channel is there with other threads, too. -/
theorem AtChannel.withHilos (h : AtChannel c) (hilos : List (String × String)) :
    AtChannel (c.withHilos hilos) := ⟨h.loggedIn, h.channel, h.mios⟩

theorem hilos_keeps (h : AtChannel c) : Keeps stored ((listHilos c u).map fun (c, page, getHilos) =>
    ⟨some c, [getHilos], .page (page none)⟩) := by
  obtain ⟨page, getHilos, hlist, user, chat, mio, hpage⟩ := h.lists u
  rw [hlist]
  refine keeps_saved h.loggedIn h.mios ?_
  rw [hpage]
  exact meets_ofChannel.mpr (h.withHilos _)

theorem hilosPost_keeps (h : AtChannel c) (hhilo : onParticipants form.action = false →
      form.newThread ≠ some "1" → ∃ t ∈ u.hilos, form.hilo = some t.2) :
    Keeps stored (hilosPost c form u) := by
  obtain ⟨page, getHilos, hlist, user, chat, mio, hpage⟩ := h.lists u
  have hchannel : Meets .ofChannel (c.withHilos u.hilos) := meets_ofChannel.mpr (h.withHilos _)
  have hpages : ∀ err calls, Keeps stored (.ok ⟨some (c.withHilos u.hilos), calls, .page (page err)⟩) := by
    intro err calls
    refine keeps_saved h.loggedIn h.mios ?_
    rw [hpage]
    exact hchannel
  cases hon : onParticipants form.action with
  | true =>
    obtain ⟨id, hid⟩ := (h.withHilos u.hilos).channel
    unfold hilosPost
    simp only [hlist, hid, hon, bind, Except.bind, pure, Except.pure, if_true]
    split
    · exact hpages _ _
    · split
      · exact keeps_saved h.loggedIn h.mios hchannel
      · exact hpages _ _
  | false =>
    rw [hilosPost_chooses hlist hon]
    split
    · have hc : AtChannel ((c.withHilos u.hilos).atHilo form.hilo) := ⟨h.loggedIn, h.channel, h.mios⟩
      exact keeps_saved h.loggedIn h.mios (meets_ofTitles.mpr ⟨hc, byTitle u.hilos, rfl, List.forall_mem_nil _⟩)
    · rename_i hnew
      obtain ⟨t, ht, hform⟩ := hhilo hon hnew
      obtain ⟨id, -, hget⟩ := byTitle_get ht
      refine keeps_saved h.loggedIn h.mios (meets_ofThread.mpr ⟨stripped id, ?_⟩)
      exact currentThread_eq_ok.mpr ⟨byTitle u.hilos, t.2, id, rfl, congrArg some hform, hget, rfl⟩

theorem modHilosPage_meets {l : List (Option String)} (h : Meets (.ofTitles l) c)
    (hst : Meets (.titlesOf c) stored) (err : Option Err) :
    ∃ p, modHilosPage c err = .ok p ∧ Meets (needsBehind p) stored := by
  obtain ⟨-, d, hd, -⟩ := meets_ofTitles.mp h
  rw [titlesOf_eq hd] at hst
  exact ⟨_, modHilosPage_ok hd err, hst⟩

theorem modHilosPost_keeps (h : Meets (needs (.post .modHilos form)) c)
    (hst : Meets (.titlesOf c) stored) : Keeps stored (modHilosPost c userId form u) := by
  have hafter : ∀ (call : Call) (err : ApiError → Err), Keeps stored
      (afterCall call u.done .main fun e => modHilosPage c (some (err e))) :=
    fun call err => keeps_afterCall (meets_nothing _) fun e => modHilosPage_meets h hst _
  rw [needs] at h
  obtain ⟨⟨-, ⟨id, hid⟩, -⟩, d, hd, hnames⟩ := meets_ofTitles.mp h
  unfold modHilosPost
  split
  · by_cases hname : stripped (form.newName.getD "") = ""
    · rw [titlesOf_eq hd, meets_ofTitles] at hst
      simp only [if_pos hname, hd, lookup, bind, Except.bind]
      exact keeps_unsaved (meets_ofTitles.mpr ⟨hst.1, hst.2.mono (List.forall_mem_nil _)⟩)
    · simp only [if_neg hname, hid, bind, Except.bind]
      exact hafter _ _
  · rename_i haction
    rw [if_neg haction] at hnames
    obtain ⟨hilo, hhilo⟩ : ∃ hilo, item .hilosAll d form.hilo = .ok hilo :=
      Has.item ⟨d, rfl, hnames⟩
    rw [hd]
    simp only [lookup, hhilo, bind, Except.bind]
    split
    · exact hafter _ _
    · exact hafter _ _
    · exact keeps_unsaved (meets_nothing _)

theorem mensajes_keeps {r : Request} (h : Meets .ofThread c) (hst : Meets .ofThread stored) :
    Keeps stored (mensajes c userId r u) := by
  obtain ⟨id, hid⟩ := meets_ofThread.mp h
  unfold mensajes
  rw [hid]
  simp only [bind, Except.bind]
  cases r with
  | get v => exact keeps_unsaved hst
  | ajax v => exact keeps_unsaved (meets_nothing _)
  | post v form => exact keeps_unsaved hst

/-- **A view that finds what its request needs ends, and leaves what its answer needs.** `c` is the
copy that it has read and `stored` the session by now, which must still meet what the page will show
of the copy. -/
theorem view_keeps (hc : LoggedIn c) (h : Meets (needs r) c) (hst : Meets (needsLoaded r c) stored)
    (hchat : ∀ form, r = .post .main form → form.newChat ≠ some "1" → Has c.canalesAll [form.chat])
    (hhilo : ∀ form, r = .post .hilos form → onParticipants form.action = false →
      form.newThread ≠ some "1" → ∃ t ∈ u.hilos, form.hilo = some t.2) :
    Keeps stored (view r c u) := by
  obtain ⟨userId, hid, hne⟩ := hc.1
  rw [view_eq hid hne]
  match r with
  | .get .main => exact keeps_unsaved (meets_nothing _)
  | .ajax .main =>
    rcases mainAjax_cases c userId u with ⟨chats, mios, d, -, -, hsave, hresp, -⟩ |
      ⟨hsave, _, d, hresp, -⟩
    · refine ⟨_, rfl, by rw [hresp]; exact meets_nothing _, fun c' hc' => ?_⟩
      rw [hsave] at hc'
      cases hc'
      exact ⟨hc, Option.some_ne_none _⟩
    · refine ⟨_, rfl, by rw [hresp]; exact meets_nothing _, fun c' hc' => ?_⟩
      rw [hsave] at hc'
      cases hc'
  | .post .main form => exact mainPost_keeps hc h (hchat form rfl)
  | .get .modChat | .ajax .modChat =>
    obtain ⟨p, hp, hmeets⟩ := modChatPage_meets h hst none
    rw [viewFor, hp]
    exact keeps_unsaved hmeets
  | .post .modChat form => exact modChatPost_keeps h hst
  | .get .hilos | .ajax .hilos => exact hilos_keeps (meets_ofChannel.mp h)
  | .post .hilos form => exact hilosPost_keeps (meets_ofChannel.mp h) (hhilo form rfl)
  | .get .modHilos | .ajax .modHilos =>
    obtain ⟨p, hp, hmeets⟩ := modHilosPage_meets h hst none
    rw [viewFor, hp]
    exact keeps_unsaved hmeets
  | .post .modHilos form => exact modHilosPost_keeps h hst
  | .get .mensajes | .ajax .mensajes | .post .mensajes _ =>
    rw [viewFor]
    exact mensajes_keeps h hst

theorem chat_of_mem {chat : String} (h : form ∈ chatForms chat form) : form.chat = some chat := by
  simp only [chatForms, List.mem_cons, List.not_mem_nil, or_false] at h
  rcases h with h | h | h | h
  · exact congrArg Form.chat h
  · exact congrArg Form.chat h
  · exact congrArg Form.chat h
  · exact congrArg Form.chat h

theorem hilo_of_mem {hilo : String} (h : form ∈ hiloForms hilo form) : form.hilo = some hilo := by
  simp only [hiloForms, List.mem_cons, List.not_mem_nil, or_false] at h
  rcases h with h | h
  · exact congrArg Form.hilo h
  · exact congrArg Form.hilo h

/-- A form to create something looks nothing up, another the name it was offered for. -/
theorem has_of_form {α : Type} {d : Option (OrderedDict String α)} {names : List String}
    {x : Option String} (h : Has d (names.map some))
    (hx : form.action = some "create" ∨ ∃ name ∈ names, x = some name) :
    Has d (if form.action = some "create" then [] else [x]) := by
  refine h.mono fun y hy => ?_
  split at hy
  · cases hy
  · rename_i haction
    obtain ⟨name, hname, hx⟩ := hx.resolve_left haction
    rw [List.mem_singleton.mp hy, hx]
    exact List.mem_map_of_mem hname

/-- The fields of a page's forms go by the need of the page: a hidden name is one that the page
shows. -/
theorem offered_meets {names : List String} {p : Page} (h : offered names p r = true)
    (hp : Meets (needsPage p) c) (hnames : names ≠ [] → c.canalesMios ≠ none) :
    Meets (needsSent r) c := by
  unfold offered at h
  split at h
  · exact meets_nothing c
  · rename_i user form
    rw [Bool.or_eq_true, decide_eq_true_eq, List.any_eq_true] at h
    rcases h with rfl | ⟨chat, hchat, h⟩
    · exact meets_nothing c
    · rw [of_decide_eq_true h]
      exact meets_ofMios_nil.mpr (hnames (List.ne_nil_of_mem hchat))
  · rename_i chats err form
    rw [Bool.or_eq_true, decide_eq_true_eq, List.any_eq_true] at h
    refine meets_ofMios.mpr (has_of_form (meets_ofMios.mp hp) ?_)
    rcases h with h | ⟨chat, hchat, h⟩
    · exact Or.inl (congrArg Form.action h)
    · exact Or.inr ⟨chat, hchat, chat_of_mem (of_decide_eq_true h)⟩
  · exact hp
  · rename_i hilos err form
    rw [Bool.or_eq_true, decide_eq_true_eq, List.any_eq_true] at h
    obtain ⟨hc, hhilos⟩ := meets_ofTitles.mp hp
    refine meets_ofTitles.mpr ⟨hc, has_of_form hhilos ?_⟩
    rcases h with h | ⟨hilo, hhilo, h⟩
    · exact Or.inl (congrArg Form.action h)
    · exact Or.inr ⟨hilo, hhilo, hilo_of_mem (of_decide_eq_true h)⟩
  · exact hp
  · cases h

/-- What is known behind an earlier page is known of its forms. -/
theorem offered_again {names : List String} {p : Page} (h : offered names p r = true)
    (hp : Meets (needsAgain p) c) (hnames : names ≠ [] → c.canalesMios ≠ none) :
    Meets (needsBack r) c := by
  have hoff := h
  unfold offered at h
  split at h
  · exact meets_nothing c
  · exact offered_meets hoff (meets_nothing c) hnames
  · exact hp
  · exact hp
  · exact hp
  · exact meets_nothing c
  · cases h

/-- A form of an earlier page needs what the session is known to have, and what it finds. -/
theorem Finds.meets (hc : LoggedIn c) (hback : Meets (needsBack r) c) (h : Finds r c) :
    Meets (needsSent r) c := by
  have hchannel : Meets (.ofMios []) c → (∃ id, channelId c = .ok id) → AtChannel c :=
    fun hmios hid => ⟨hc, hid, meets_ofMios_nil.mp hmios⟩
  match r with
  | .get _ | .ajax _ | .post .main _ => exact hback
  | .post .modChat form =>
    refine meets_ofMios.mpr ?_
    split
    · exact meets_ofMios.mp hback
    · rename_i haction
      exact h.resolve_left haction
  | .post .hilos _ => exact meets_ofChannel.mpr (hchannel hback h)
  | .post .modHilos form => exact meets_ofTitles.mpr ⟨hchannel hback h.1, h.2⟩
  | .post .mensajes _ => exact meets_ofThread.mpr h

/-- A page that is shown leaves what it will be known to have left. -/
theorem Meets.again {p : Page} (h : Meets (needsPage p) c) : Meets (needsAgain p) c := by
  cases p with
  | main user => exact meets_nothing c
  | modChat chats err =>
    exact meets_ofMios.mpr ((meets_ofMios.mp h).mono (List.forall_mem_nil _))
  | hilos user chat hilos mio err => exact meets_ofMios_nil.mpr (meets_ofChannel.mp h).mios
  | modHilos hilos err => exact meets_ofMios_nil.mpr (meets_ofTitles.mp h).1.mios
  | mensajes user ids => exact meets_nothing c

/-- It is known of any session that has `canales_mios`. -/
theorem meets_again {c : Session} (p : Page) (h : c.canalesMios ≠ none) : Meets (needsAgain p) c := by
  have hmios : Meets (.ofMios []) c := meets_ofMios_nil.mpr h
  cases p with
  | main user => exact meets_nothing c
  | modChat chats err => exact hmios
  | hilos user chat hilos mio err => exact hmios
  | modHilos hilos err => exact hmios
  | mensajes user ids => exact meets_nothing c

/-! ## Runs -/

/-- The tab is logged in, and finds what it may look up next; and what is known of every page that
it has shown. -/
structure Inside (c₀ : Session) (s : State) : Prop where
  loggedIn : LoggedIn s.session
  meets : Meets s.need s.session
  listed : MainListed c₀ s → s.session.canalesMios ≠ none
  seen : ∀ p ∈ s.earlier, Meets (needsAgain p) s.session

/-- A request that has read its session will find what it looks up there. -/
structure Ready (nav : Nav) (c : Session) : Prop where
  loggedIn : LoggedIn c
  meets : Meets (needs nav.request) c
  chat : ∀ form, nav.request = .post .main form → form.newChat ≠ some "1" →
    Has c.canalesAll [form.chat]

/-- The invariant: what holds of the tab until it logs out, and of every copy under way. Behind a
`log_out` nothing is claimed of the tab, and a copy from before it cannot be written back. -/
structure Sound (c₀ : Session) (s : State) : Prop where
  inside : s.session.userId ≠ none → Inside c₀ s
  copy : ∀ nav c, s.nav = some nav → nav.read = some c →
    c.userId = none ∧ s.session.userId = none ∨ s.session.userId ≠ none ∧ Ready nav c
  scripts : ∀ k c, s.scripts k = some (.loaded c) → c.userId = none ∨ LoggedIn c
  refreshes : ∀ k c, s.refreshes k = some (.loaded c) →
    c.userId = none ∨ ∃ id, currentThread c = .ok id
  answers : ∀ k, s.namesOf k ≠ [] → Script.lists (s.scripts k) = true

theorem LoggedIn.userId_ne (h : LoggedIn c) : c.userId ≠ none := by
  obtain ⟨⟨id, hid, -⟩, -⟩ := h
  rw [hid]
  exact Option.some_ne_none id

/-- A session of nobody is sent home. -/
theorem view_flushed (h : c.userId = none) (r : Request) (u : Replies) :
    view r c u = .ok ⟨none, [], .home⟩ := by
  unfold view
  rw [h]

theorem sound_login (hc : LoggedIn c) : Sound c (State.login c) := by
  refine ⟨fun _ => ⟨hc, meets_nothing c, ?_, ?_⟩, ?_, ?_, ?_, ?_⟩
  · rintro (h | ⟨k, hk, -⟩)
    · exact h
    · cases hk
  · intro p hp
    cases hp
  · intro nav c' hnav hread
    cases hnav
    cases hread
  · intro k c' h
    cases h
  · intro k c' h
    cases h
  · intro k h
    exact absurd rfl h

theorem Sound.namesOf {k : Nat} (h : Sound c₀ s) (hin : s.session.userId ≠ none) (hk : k < s.shown)
    (hnames : s.namesOf k ≠ []) : s.session.canalesMios ≠ none :=
  (h.inside hin).listed (Or.inr ⟨k, hk, h.answers k hnames⟩)

theorem Sound.names (h : Sound c₀ s) (hin : s.session.userId ≠ none) (hnames : s.names ≠ []) :
    s.session.canalesMios ≠ none := by
  unfold State.names at hnames
  split at hnames
  · exact absurd rfl hnames
  · rename_i k hk
    exact h.namesOf hin (by rw [hk]; exact Nat.lt_succ_self k) hnames

/-- The tab goes on from a page that is no request yet. -/
theorem Sound.follow (h : Sound c₀ s) (hread : nav.read = none)
    (hneed : s.session.userId ≠ none → Meets (State.need { s with nav := some nav }) s.session) :
    Sound c₀ { s with nav := some nav } := by
  refine ⟨fun hin => ⟨(h.inside hin).loggedIn, hneed hin, (h.inside hin).listed, (h.inside hin).seen⟩,
    fun nav' c hnav hc => ?_, h.scripts, h.refreshes, h.answers⟩
  cases hnav
  rw [hread] at hc
  cases hc

theorem Sound.click {p : Page} (h : Sound c₀ s) (hpage : s.page = some p) (hnav : s.nav = none)
    (hoff : offered s.names p r = true) : Sound c₀ { s with nav := some ⟨r, false, none⟩ } := by
  refine h.follow rfl fun hin => offered_meets hoff ?_ fun hnames => ?_
  · have hmeets := (h.inside hin).meets
    rw [State.need, hnav, hpage] at hmeets
    exact hmeets
  · exact h.names hin hnames

theorem Sound.back {p : Page} (h : Sound c₀ s) (hp : p ∈ s.earlier)
    (hoff : offered s.allNames p r = true) : Sound c₀ { s with nav := some ⟨r, true, none⟩ } := by
  refine h.follow rfl fun hin => offered_again hoff ((h.inside hin).seen p hp) fun hnames => ?_
  obtain ⟨k, hk, hne⟩ : ∃ k < s.shown, s.namesOf k ≠ [] := by
    by_contra hall
    refine hnames (List.flatMap_eq_nil_iff.mpr fun k hk => ?_)
    by_contra hne
    exact hall ⟨k, List.mem_range.mp hk, hne⟩
  exact h.namesOf hin hk hne

/-- Away from these pages nothing is needed. -/
theorem Sound.leave (h : Sound c₀ s) (hnav : s.nav = none) : Sound c₀ { s with page := none } := by
  refine ⟨fun hin => ⟨(h.inside hin).loggedIn, ?_, (h.inside hin).listed, (h.inside hin).seen⟩,
    h.copy, h.scripts, h.refreshes, h.answers⟩
  rw [State.need, hnav]
  exact meets_nothing _

theorem Sound.logOut (h : Sound c₀ s) (hnav : s.nav = none) :
    Sound c₀ { s with session := .flushed, page := none } := by
  refine ⟨fun hin => absurd rfl hin, fun nav c hnav' => ?_, h.scripts, h.refreshes, h.answers⟩
  simp only [hnav, reduceCtorEq] at hnav'

theorem Sound.load (h : Sound c₀ s) (ht : s.session.userId ≠ none → Orderly c₀ s .load)
    (hnav : s.nav = some nav) (hread : nav.read = none) :
    Sound c₀ { s with nav := some { nav with read := some s.session } } := by
  have hready : s.session.userId ≠ none → Ready nav s.session := by
    intro hin
    have hc := (h.inside hin).loggedIn
    have hwell : ReadsWell c₀ s nav := ht hin nav hnav hread
    have hmeets := (h.inside hin).meets
    rw [State.need, hnav] at hmeets
    simp only [hread] at hmeets
    have hsent : Meets (needsSent nav.request) s.session := by
      cases hback : nav.back with
      | false =>
        rw [hback, if_neg Bool.false_ne_true] at hmeets
        exact hmeets
      | true =>
        rw [hback, if_pos rfl] at hmeets
        refine Finds.meets hc hmeets ?_
        unfold ReadsWell at hwell
        split at hwell
        · rename_i hr
          rw [hr]
          trivial
        · rename_i form hr
          rw [hr]
          trivial
        · exact hwell hback
    refine ⟨hc, ?_, fun form hr hnew => ?_⟩
    · by_cases hr : nav.request = .get .modChat
      · rw [ReadsWell, hr] at hwell
        rw [hr]
        exact meets_ofMios_nil.mpr ((h.inside hin).listed hwell)
      · rw [needsSent, if_neg hr] at hsent
        exact hsent
    · rw [ReadsWell, hr] at hwell
      exact hwell.resolve_left hnew
  refine ⟨fun hin => ⟨(h.inside hin).loggedIn, ?_, (h.inside hin).listed, (h.inside hin).seen⟩,
    fun nav' c hnav' hc => ?_, h.scripts, h.refreshes, h.answers⟩
  · exact (hready hin).meets.loaded
  · cases hnav'
    cases hc
    by_cases hin : s.session.userId = none
    · exact Or.inl ⟨hin, hin⟩
    · exact Or.inr ⟨hin, (hready hin).loggedIn, (hready hin).meets, (hready hin).chat⟩

@[simp] theorem become_session (s : State) (p : Response) : (s.become p).session = s.session := by
  cases p with
  | page p => cases p <;> rfl
  | _ => rfl

@[simp] theorem become_refreshes (s : State) (p : Response) :
    (s.become p).refreshes = s.refreshes := by
  cases p with
  | page p => cases p <;> rfl
  | _ => rfl

theorem become_nav (s : State) (p : Response) {nav : Nav} {c : Session}
    (h : (s.become p).nav = some nav) : nav.read ≠ some c := by
  cases p with
  | page p => cases p <;> cases h
  | redirect v =>
    cases h
    simp
  | _ => cases h

/-- A page that is shown may send one more request of the script. -/
theorem become_scripts {p : Response} {k : Nat} {x : Script} (h : (s.become p).scripts k = some x) :
    x = .sent ∨ s.scripts k = some x := by
  cases p with
  | page p => cases p with
    | main user => exact (update_cases h).imp (fun h => h.2.symm) And.right
    | _ => exact Or.inr h
  | _ => exact Or.inr h

theorem mem_become {p : Response} {q : Page} (h : q ∈ (s.become p).earlier) :
    p = .page q ∨ q ∈ s.earlier := by
  cases p with
  | page p => cases p <;> exact (List.mem_cons.mp h).imp_left fun heq => congrArg _ heq.symm
  | _ => exact Or.inr h

/-- A page that is shown has no lists yet. -/
theorem become_lists {p : Response} {k : Nat} (h : Script.lists ((s.become p).scripts k) = true) :
    (s.become p).scripts k = s.scripts k := by
  cases p with
  | page p => cases p with
    | main user =>
      refine Function.update_of_ne ?_ _ _
      rintro rfl
      simp only [State.become, Function.update_self, Script.lists, Bool.false_eq_true] at h
    | _ => rfl
  | _ => rfl

theorem MainListed.of_become {p : Response} (h : MainListed c₀ (s.become p)) : MainListed c₀ s := by
  refine h.imp_right ?_
  rintro ⟨k, hk, hlists⟩
  have hsame := become_lists hlists
  refine ⟨k, ?_, hsame ▸ hlists⟩
  cases p with
  | page p => cases p with
    | main user =>
      refine lt_of_le_of_ne (Nat.lt_succ_iff.mp hk) ?_
      rintro rfl
      simp only [State.become, Function.update_self, Script.lists, Bool.false_eq_true] at hlists
    | _ => exact hk
  | _ => exact hk

/-- Names are on a page behind a list only. -/
theorem lists_of_names {k : Nat} {x : Option Script} (hx : ∀ r, x = some (.answered (some r)) →
    namesIn r ≠ [] → Script.lists x = true) (hs : s.scripts k = x) (h : s.namesOf k ≠ []) :
    Script.lists x = true := by
  unfold State.namesOf at h
  rw [hs] at h
  split at h
  · exact hx _ rfl h
  · exact absurd rfl h

theorem State.saved_of_in (h : s.session.userId ≠ none) (save : Option Session) :
    s.saved save = save.getD s.session := if_neg h

theorem State.saved_of_out (h : s.session.userId = none) (save : Option Session) :
    s.saved save = s.session := if_pos h

/-- What is answered ends, and leaves what its page needs: `view_keeps` at the copy it has read. -/
theorem Sound.answer (h : Sound c₀ s) (ht : s.session.userId ≠ none → Orderly c₀ s (.answer u))
    (hnav : s.nav = some nav) (hread : nav.read = some c) :
    (∃ o, view nav.request c u = .ok o) ∧ Sound c₀ (s.ended (view nav.request c u)) := by
  have hscripts : ∀ {s' : State} {p : Response}, s'.scripts = s.scripts → ∀ k c',
      (s'.become p).scripts k = some (.loaded c') → c'.userId = none ∨ LoggedIn c' := by
    intro s' p hs k c' hk
    rcases become_scripts hk with hsent | hold
    · cases hsent
    · rw [hs] at hold
      exact h.scripts k c' hold
  have hanswers : ∀ {s' : State} {p : Response}, s'.scripts = s.scripts → ∀ k,
      (s'.become p).namesOf k ≠ [] → Script.lists ((s'.become p).scripts k) = true := by
    intro s' p hs k hk
    refine lists_of_names (fun r hr hnames => ?_) rfl hk
    rcases become_scripts hr with hsent | hold
    · cases hsent
    · rw [hs] at hold
      rw [hr, ← hold]
      refine h.answers k ?_
      rw [State.namesOf, hold]
      exact hnames
  rcases h.copy nav c hnav hread with ⟨hc, hout⟩ | ⟨hin, hready⟩
  · -- behind a log-out the tab is sent home
    rw [view_flushed hc]
    refine ⟨⟨_, rfl⟩, fun hin => ?_, fun nav' c' hnav' => ?_, h.scripts, h.refreshes, h.answers⟩
    · simp only [State.ended, State.become, State.saved_of_out hout] at hin
      exact absurd hout hin
    · cases hnav'
  · have hst : Meets (needsLoaded nav.request c) s.session := by
      have hmeets := (h.inside hin).meets
      rw [State.need, hnav] at hmeets
      simp only [hread] at hmeets
      exact hmeets
    obtain ⟨o, ho, hmeets, hsave⟩ := view_keeps (u := u) hready.loggedIn hready.meets hst
      hready.chat fun form hr hon hnew => by
        have hlists : ListsAgain u nav.request := ht hin nav hnav
        rw [hr] at hlists
        rcases hlists with hyes | hyes | hlisted
        · rw [hon] at hyes
          cases hyes
        · exact absurd hyes hnew
        · exact hlisted
    have hinside := h.inside hin
    have hsaved : LoggedIn (o.save.getD s.session) ∧
        (s.session.canalesMios ≠ none → (o.save.getD s.session).canalesMios ≠ none) ∧
        ∀ p ∈ s.earlier, Meets (needsAgain p) (o.save.getD s.session) := by
      cases hso : o.save with
      | none => exact ⟨hinside.loggedIn, id, hinside.seen⟩
      | some c' =>
        obtain ⟨hc', hmios⟩ := hsave c' hso
        exact ⟨hc', fun _ => hmios, fun p _ => meets_again p hmios⟩
    rw [ho]
    refine ⟨⟨o, rfl⟩, fun _ => ⟨?_, ?_, fun hlisted => ?_, fun p hp => ?_⟩, fun nav' c' hnav' hc' =>
      absurd hc' (become_nav _ _ hnav'), hscripts rfl, ?_, hanswers rfl⟩
    · rw [State.ended, become_session, State.saved_of_in hin]
      exact hsaved.1
    · rw [State.ended, need_become, become_session, State.saved_of_in hin]
      exact hmeets
    · rw [State.ended, become_session, State.saved_of_in hin]
      exact hsaved.2.1 (hinside.listed hlisted.of_become)
    · rw [State.ended, become_session, State.saved_of_in hin]
      rcases mem_become hp with hp | hp
      · rw [hp] at hmeets
        exact Meets.again hmeets
      · exact hsaved.2.2 p hp
    · rw [State.ended, become_refreshes]
      exact h.refreshes

/-- What a request of the script has answered is all that a step changes of the scripts. -/
theorem MainListed.of_update {k : Nat} {x : Script}
    (h : MainListed c₀ { s with scripts := Function.update s.scripts k (some x) }) :
    MainListed c₀ s ∨ Script.lists (some x) = true := by
  rcases h with h | ⟨j, hj, hlists⟩
  · exact Or.inl (Or.inl h)
  · by_cases hjk : j = k
    · subst hjk
      simp only [Function.update_self] at hlists
      exact Or.inr hlists
    · simp only [Function.update_of_ne hjk] at hlists
      exact Or.inl (Or.inr ⟨j, hj, hlists⟩)

theorem answers_update {k : Nat} {x : Script} (h : Sound c₀ s)
    (hx : ∀ r, x = .answered (some r) → namesIn r ≠ [] → Script.lists (some x) = true) (j : Nat)
    (hj : State.namesOf { s with scripts := Function.update s.scripts k (some x) } j ≠ []) :
    Script.lists (Function.update s.scripts k (some x) j) = true := by
  by_cases hjk : j = k
  · subst hjk
    rw [Function.update_self]
    refine lists_of_names (fun r hr hnames => ?_) (Function.update_self ..) hj
    cases hr
    exact hx r rfl hnames
  · rw [Function.update_of_ne hjk]
    refine h.answers j ?_
    simp only [State.namesOf, Function.update_of_ne hjk] at hj
    exact hj

theorem Sound.scriptLoad {k : Nat} (h : Sound c₀ s) :
    Sound c₀ { s with scripts := Function.update s.scripts k (some (.loaded s.session)) } := by
  refine ⟨fun hin => ⟨(h.inside hin).loggedIn, (h.inside hin).meets, fun hlisted => ?_,
    (h.inside hin).seen⟩, h.copy, fun j c hj => ?_, h.refreshes, answers_update h (by simp)⟩
  · exact (h.inside hin).listed (hlisted.of_update.resolve_right (by simp [Script.lists]))
  · rcases update_cases hj with ⟨-, hloaded⟩ | ⟨-, hj⟩
    · cases hloaded
      by_cases hin : s.session.userId = none
      · exact Or.inl hin
      · exact Or.inr (h.inside hin).loggedIn
    · exact h.scripts j c hj

theorem namesIn_eq_nil {status : Nat} {d : MainData} (hchats : d.chats = []) (hmios : d.mios = []) :
    namesIn (.json status d) = [] := by
  unfold namesIn
  split
  · rename_i h
    cases h
    rw [hchats, hmios]
    split <;> rfl
  · rfl

/-- An answer that lists nothing changes nothing but itself. -/
theorem Sound.scriptQuiet {k : Nat} {p : Response} (h : Sound c₀ s) (hnames : namesIn p = [])
    (hlists : Script.lists (some (.answered (some p))) = false) :
    Sound c₀ { s with scripts := Function.update s.scripts k (some (.answered (some p))) } := by
  refine ⟨fun hin => ⟨(h.inside hin).loggedIn, (h.inside hin).meets, fun hlisted => ?_,
    (h.inside hin).seen⟩, h.copy, fun j c hj => ?_, h.refreshes, answers_update h ?_⟩
  · exact (h.inside hin).listed (hlisted.of_update.resolve_right (by simp [hlists]))
  · rcases update_cases hj with ⟨-, hloaded⟩ | ⟨-, hj⟩
    · cases hloaded
    · exact h.scripts j c hj
  · intro r hr hne
    cases hr
    exact absurd hnames hne

theorem Sound.scriptAnswer {k : Nat} (h : Sound c₀ s)
    (ht : s.session.userId ≠ none → Orderly c₀ s (.scriptAnswer k u))
    (hk : s.scripts k = some (.loaded c)) :
    (∃ o, view (.ajax .main) c u = .ok o) ∧
      Sound c₀ (s.scriptEnded k (view (.ajax .main) c u)) := by
  have hquiet : ∀ o : Outcome, o.save = none → s.scriptEnded k (.ok o) =
      { s with scripts := Function.update s.scripts k (some (.answered (some o.response))) } := by
    intro o ho
    simp [State.scriptEnded, State.saved, ho]
  rcases h.scripts k c hk with hflushed | hc
  · rw [view_flushed hflushed, hquiet _ rfl]
    exact ⟨⟨_, rfl⟩, h.scriptQuiet rfl rfl⟩
  · obtain ⟨userId, hid, hne⟩ := hc.1
    have hview : view (.ajax .main) c u = .ok (mainAjax c userId u) := view_eq hid hne _ u
    rw [hview]
    refine ⟨⟨_, rfl⟩, ?_⟩
    rcases mainAjax_cases c userId u with ⟨chats, mios, d, hchats, hmios, hsave, hresp, herror⟩ |
      ⟨hsave, status, d, hresp, hnoChats, hnoMios, herror⟩
    · have hcanales : (c.listed chats mios).canalesMios ≠ none := Option.some_ne_none _
      have hleaves : s.session.userId ≠ none → Leaves s.need c chats mios := by
        intro hin
        refine ht hin c ?_ chats ?_ mios ?_
        · rw [hk]
          rfl
        · rw [hchats]
          rfl
        · rw [hmios]
          rfl
      simp only [State.scriptEnded, hsave, hresp]
      refine ⟨fun hin' => ?_, fun nav c' hnav hc' => ?_, fun j c' hj => ?_, h.refreshes,
        answers_update h fun r hr _ => ?_⟩
      · by_cases hin : s.session.userId = none
        · simp only [State.saved_of_out hin] at hin'
          exact absurd hin hin'
        · simp only [State.saved_of_in hin, Option.getD_some]
          exact ⟨hc, (hleaves hin).meets hc, fun _ => hcanales, fun p _ => meets_again p hcanales⟩
      · rcases h.copy nav c' hnav hc' with ⟨hflushed, hout⟩ | ⟨hin, hready⟩
        · exact Or.inl ⟨hflushed, by rw [State.saved_of_out hout]; exact hout⟩
        · exact Or.inr ⟨by rw [State.saved_of_in hin]; exact hc.userId_ne, hready⟩
      · rcases update_cases hj with ⟨-, hloaded⟩ | ⟨-, hj⟩
        · cases hloaded
        · exact h.scripts j c' hj
      · cases hr
        simp [Script.lists, herror]
    · rw [hquiet _ hsave, hresp]
      refine h.scriptQuiet (namesIn_eq_nil hnoChats hnoMios) ?_
      unfold Script.lists
      split
      · rename_i heq
        cases heq
        exact Option.isNone_eq_false_iff.mpr (Option.isSome_iff_ne_none.mpr herror)
      · rfl

/-- A refresh that fires has read nothing. -/
theorem Sound.refreshes_update {k : Nat} {x : Option Refresh} (h : Sound c₀ s)
    (hx : ∀ c, x = some (.loaded c) → c.userId = none ∨ ∃ id, currentThread c = .ok id) :
    Sound c₀ { s with refreshes := Function.update s.refreshes k x } := by
  refine ⟨fun hin => ⟨(h.inside hin).loggedIn, (h.inside hin).meets, (h.inside hin).listed,
    (h.inside hin).seen⟩, h.copy, h.scripts, fun j c hj => ?_, h.answers⟩
  by_cases hjk : j = k
  · subst hjk
    simp only [Function.update_self] at hj
    exact hx c hj
  · simp only [Function.update_of_ne hjk] at hj
    exact h.refreshes j c hj

theorem Sound.refreshLoad {k : Nat} (h : Sound c₀ s)
    (ht : s.session.userId ≠ none → Orderly c₀ s (.refreshLoad k)) :
    Sound c₀ { s with refreshes := Function.update s.refreshes k (some (.loaded s.session)) } := by
  refine h.refreshes_update fun c hc => ?_
  cases hc
  by_cases hin : s.session.userId = none
  · exact Or.inl hin
  · exact Or.inr ((ht hin).elim (h.inside hin).meets.thread id)

/-- A refresh that has read its thread ends. -/
theorem refresh_ends (h : c.userId = none ∨ ∃ id, currentThread c = .ok id) (u : Replies) :
    ∃ o, view (.get .mensajes) c u = .ok o := by
  rcases h with hflushed | ⟨id, hid⟩
  · exact ⟨_, view_flushed hflushed _ u⟩
  · unfold view
    split
    · exact ⟨_, rfl⟩
    · split
      · exact ⟨_, rfl⟩
      · simp only [viewFor, mensajes, hid, bind, Except.bind]
        exact ⟨_, rfl⟩

/-- **A step that takes nothing away finds what it looks up, and leaves a sound tab.** One case for
each event. -/
theorem Sound.step (h : Sound c₀ s) (hstep : step s e = some s')
    (ht : s.session.userId ≠ none → Orderly c₀ s e) : Sound c₀ s' ∧ ¬ Raises ⟨s, e, s'⟩ := by
  cases did_of_step hstep with
  | click hpage hnav hoff => exact ⟨h.click hpage hnav hoff, id⟩
  | back hnav hp hoff => exact ⟨h.back hp hoff, id⟩
  | leave hnav => exact ⟨h.leave hnav, id⟩
  | logOut hnav => exact ⟨h.logOut hnav, id⟩
  | load hnav => exact ⟨h.load ht hnav rfl, id⟩
  | answer hnav =>
    obtain ⟨⟨o, ho⟩, hsound⟩ := h.answer ht hnav rfl
    refine ⟨hsound, ?_⟩
    rintro ⟨r, back, c, e, hnav', he⟩
    rw [hnav] at hnav'
    cases hnav'
    rw [ho] at he
    cases he
  | scriptLoad hk => exact ⟨h.scriptLoad, id⟩
  | scriptAnswer hk =>
    obtain ⟨⟨o, ho⟩, hsound⟩ := h.scriptAnswer ht hk
    refine ⟨hsound, ?_⟩
    rintro ⟨c, e, hk', he⟩
    rw [hk] at hk'
    cases hk'
    rw [ho] at he
    cases he
  | refresh hk => exact ⟨h.refreshes_update (by simp), id⟩
  | refreshLoad hk => exact ⟨h.refreshLoad ht, id⟩
  | @refreshAnswer k u c hk =>
    refine ⟨h.refreshes_update (by simp), ?_⟩
    rintro ⟨c', e, hk', he⟩
    rw [hk] at hk'
    cases hk'
    obtain ⟨o, ho⟩ := refresh_ends (h.refreshes k c hk) u
    rw [ho] at he
    cases he

/-- The steps of a run that are made while the tab is logged in take nothing away. -/
def OrderlyRun (c₀ : Session) (tr : List Step) : Prop :=
  ∀ t ∈ tr, t.pre.session.userId ≠ none → Orderly c₀ t.pre t.event

theorem sound_of_run {tr : List Step} (hc : LoggedIn c₀) (h : Run step (State.login c₀) tr s)
    (hok : OrderlyRun c₀ tr) : Sound c₀ s :=
  h.historyInv (C := fun t : Step => t.pre.session.userId ≠ none → Orderly c₀ t.pre t.event)
    (I := fun _ s => Sound c₀ s) (sound_login hc)
    (fun _ _ _ _ _ hm hstep ht => (hm.step hstep ht).1) fun t ht => hok t ht

/-- **Nothing is looked up that is not there**, in a run whose steps take nothing away. The run may
follow any link or form of its page or of an earlier one, in any order; the requests of the scripts
are read and answered at any time; and each call of each view may answer with any list, or fail. -/
theorem never_raises {tr : List Step} (hc : LoggedIn c₀)
    (h : Run step (State.login c₀) tr s) (hok : OrderlyRun c₀ tr) : ∀ t ∈ tr, ¬ Raises t := by
  intro t ht
  obtain ⟨tr₁, tr₂, rfl⟩ := List.append_of_mem ht
  obtain ⟨hpre, hstep, -⟩ := h.cut
  have hsound := sound_of_run hc hpre fun t ht => hok t (List.mem_append_left _ ht)
  exact (hsound.step hstep (hok t ht)).2

/-- The upstream services list one channel of the visitor's, with one thread. -/
def oneChannel : Replies :=
  ⟨.success [⟨"1", "general", 1, "public"⟩], .success [⟨"1", "general", 1, "public"⟩], none,
    [("7", "saludos")], .ok (), some ["3"], some "4"⟩

/-- What is followed is read and answered. -/
def served : List Event := [.load, .answer oneChannel]

/-- The channels are listed behind `main`, the channel is opened, its thread is given another name
in `mod_hilos`; then, from the page of `hilos` that was shown before, the thread is opened, its page
is refreshed and a message is sent. -/
def throughPages : List Event :=
  served ++ [.scriptLoad 0, .scriptAnswer 0 oneChannel, .click (.post .main (chatForm "general"))] ++
  served ++ served ++
  [.click (.post .hilos { Form.empty with newThread := some "1" })] ++ served ++ served ++
  [.click (.post .modHilos
    { Form.empty with hilo := some "saludos", action := some "rename", newName := some "hola" })] ++
  served ++ served ++
  [.back (.post .hilos (hiloForm "saludos"))] ++ served ++ served ++
  [.refresh 0, .refreshLoad 0, .refreshAnswer 0 oneChannel,
    .click (.post .mensajes { Form.empty with mensaje := some "buenas" })] ++ served ++ served

theorem never_raises_throughPages : ∃ tr s, tr.map Transition.event = throughPages ∧
    Run step (State.login visitor) tr s ∧ s.page = some (.mensajes "ana" ["3"]) ∧
    ∀ t ∈ tr, ¬ Raises t := by
  have hrun : (exec step (State.login visitor) throughPages).map State.page =
      some (some (.mensajes "ana" ["3"])) := by
    decide +kernel
  obtain ⟨s, hs, hpage⟩ := Option.map_eq_some_iff.mp hrun
  obtain ⟨htr, h⟩ := Run.of_exec hs
  have hok : ∀ t ∈ trace step (State.login visitor) throughPages,
      t.pre.session.userId ≠ none → Orderly visitor t.pre t.event := by
    decide +kernel
  exact ⟨_, s, htr, h, hpage, never_raises visitor_loggedIn h hok⟩

/-- "Crear / Explorar", before the script is answered. -/
def toModChat : List Event :=
  served ++ [.click (.post .main newChatForm)] ++ served ++ [.load]

/-- The views look up keys that a run need not have set: here `canales_mios`. -/
theorem mod_chat_before_lists : ∃ tr s, Run step (State.login visitor) tr s ∧ ∃ t ∈ tr, Raises t := by
  have hexec : exec step (State.login visitor) toModChat = some _ := rfl
  refine ⟨_, _, (Run.of_exec hexec).2.snoc (e := .answer oneChannel) rfl, _,
    List.mem_append_right _ List.mem_cons_self, ?_⟩
  exact ⟨.get .modChat, false, visitor, .session .canalesMios, rfl, rfl⟩

end MessagesApp.Pages
