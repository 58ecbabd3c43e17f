import MessagesApp.Interfaz.Pages

/-!
# Names and what they stand for

`main` and `hilos` show names, and a name that is chosen is looked up in the dicts of the session:
`canales_all` for `hilos` and `mod_hilos`, `canales_mios` for `mod_chat`, `hilos_all` for
`mensajes` and `mod_hilos` (`views.py` 91–443). The dicts are made of lists in which a name may come
more than once, and `canales_all` and `canales_mios` of two lists that need not agree. So a name
need not lead to the entry it was shown for, and `navigation_right_iff` says for which replies every
name does: names and ids stand for one another, and no id has blanks around it, which the views
strip for one call and leave for another.

A browser posts a name as the page shows it. That is so of names without a bare CR or LF: these two
it would post as a line break of both, and the name would be another one. The names here are taken
to have none; nothing in the views keeps them out.

Left out: what else a channel says of itself, and the order in which a browser shows entries.
-/

set_option autoImplicit false

namespace MessagesApp.Pages

open Lib Interfaz

/-! ## What is shown -/

/-- A name in one of the lists of `main`, and the id its entry was built from. The page has the name
alone; the id is that of the channel whose name it shows. -/
structure Shown where
  mio : Bool
  name : String
  id : String
deriving DecidableEq

/-- The lists of `main`: the channels that are not among the owned ones by name, and these. -/
def shownChannels (chats mios : List Channel) : List Shown :=
  (((byName chats).filter fun name => decide (name ∉ (byName mios).keys)).entries.map
      fun e => ⟨false, e.1, e.2.id⟩) ++
    (byName mios).entries.map fun e => ⟨true, e.1, e.2.id⟩

/-- The list of `hilos`: titles, with the ids they were built from. -/
def shownHilos (hilos : List (String × String)) : List (String × String) := (byTitle hilos).entries

/-- The channel is among the owned ones, by its id. -/
def owned (mios : List Channel) (id : String) : Bool := mios.any fun m => m.id = id

/-! ## What is acted on -/

def Call.channel? : Call → Option String
  | .modifyChat channelId .. => some channelId
  | .deleteChat channelId => some channelId
  | .addUserToChannel channelId _ => some channelId
  | .removeUserFromChannel channelId _ => some channelId
  | .getHilosAPI channelId => some channelId
  | .createThread channelId .. => some channelId
  | _ => none

def Call.thread? : Call → Option String
  | .editThread threadId _ => some threadId
  | .deleteThread threadId => some threadId
  | .obtenerMensajes threadId => some threadId
  | .getArchivos threadId _ => some threadId
  | .enviarMensaje threadId .. => some threadId
  | .subirArchivo _ threadId _ => some threadId
  | _ => none

/-- A view ends, and makes its calls for this id, at least one. -/
def ActsOn (of : Call → Option String) (id : String) (out : Except KeyError Outcome) : Prop :=
  ∃ o, out = .ok o ∧ o.calls ≠ [] ∧ ∀ call ∈ o.calls, of call = some id

def LoggedIn (c : Session) : Prop := (∃ id, c.userId = some id ∧ id ≠ "") ∧ c.user ≠ none

/-- The session that `main` has left behind these replies. -/
def Session.listed (c : Session) (chats mios : List Channel) : Session :=
  { c with canalesAll := some (byName chats), canalesMios := some (byName mios) }

/-- The session with a channel chosen in it. -/
def Session.chosen (c : Session) (name : String) : Session :=
  { c with chatActual := some (some name) }

/-- The session with a title chosen in it. -/
def Session.atHilo (c : Session) (hilo : Option String) : Session :=
  { c with hiloActual := some hilo }

/-- Choosing an entry of `main` acts on the id it was built from, and its page says whether the
channel is owned. The entry is chosen by the POST of `main`, with the name as it is shown. -/
structure ChannelSelected (c : Session) (chats mios : List Channel) (e : Shown) : Prop where
  /-- the form of `main` -/
  main : ∀ u form, form.newChat ≠ some "1" → form.chat = some e.name →
    view (.post .main form) (c.listed chats mios) u =
      .ok ⟨some ((c.listed chats mios).chosen e.name), [], .redirect .hilos⟩
  /-- the pages of `hilos` -/
  hilos : ∀ u, ∃ o user titles err, view (.get .hilos) ((c.listed chats mios).chosen e.name) u = .ok o ∧
    o.response = .page (.hilos user (some e.name) titles (owned mios e.id) err) ∧
    ActsOn Call.channel? e.id (.ok o)
  /-- its participants -/
  participants : ∀ u form, onParticipants form.action = true →
    ActsOn Call.channel? e.id (view (.post .hilos form) ((c.listed chats mios).chosen e.name) u)
  /-- a new thread -/
  create : ∀ u u' form o c', view (.get .hilos) ((c.listed chats mios).chosen e.name) u = .ok o →
    o.save = some c' → form.action = some "create" → stripped (form.newName.getD "") ≠ "" →
    ActsOn Call.channel? e.id (view (.post .modHilos form) c' u')
  /-- an owned channel in `mod_chat` -/
  modChat : ∀ u form, e.mio = true → form.chat = some e.name →
    form.action ∈ [some "rename", some "delete", some "add_user", some "remove_user"] →
    ActsOn Call.channel? e.id (view (.post .modChat form) (c.listed chats mios) u)

/-- `main` shows every channel of the replies once, in the right list, and each of its entries leads
to its own channel, on every page that it is chosen for. -/
structure ChannelsRight (chats mios : List Channel) : Prop where
  /-- the answer to the script -/
  answer : ∀ c u, LoggedIn c → u.chats = .success chats → u.mios = .success mios →
    ∃ o, view (.ajax .main) c u = .ok o ∧ o.save = some (c.listed chats mios) ∧
      o.response = .json 200 ⟨true,
        ((shownChannels chats mios).filter fun e => !e.mio).map Shown.name,
        ((shownChannels chats mios).filter Shown.mio).map Shown.name, u.totalOnline, none⟩
  shown : ∀ ch ∈ chats ++ mios, (shownChannels chats mios).filter (fun e => decide (e.id = ch.id)) =
    [⟨owned mios ch.id, ch.name, ch.id⟩]
  selected : ∀ c, LoggedIn c → ∀ e ∈ shownChannels chats mios, ChannelSelected c chats mios e

/-- A session that is at a channel. -/
structure AtChannel (c : Session) : Prop where
  loggedIn : LoggedIn c
  channel : ∃ id, channelId c = .ok id
  mios : c.canalesMios ≠ none

/-- Choosing an entry of `hilos` acts on the id it was built from, in `mensajes` and in
`mod_hilos`. -/
structure HiloSelected (c : Session) (hilos : List (String × String)) (e : String × String) :
    Prop where
  /-- the page and the composer of `mensajes`, behind the form of `hilos` -/
  mensajes : ∀ u form o c', u.hilos = hilos → form.hilo = some e.1 →
    onParticipants form.action = false → view (.post .hilos form) c u = .ok o → o.save = some c' →
    (∀ u', ActsOn Call.thread? e.2 (view (.get .mensajes) c' u')) ∧
    ∀ u' form', (∃ texto, form'.mensaje = some texto ∧ texto ≠ "") →
      ActsOn Call.thread? e.2 (view (.post .mensajes form') c' u')
  /-- `mod_hilos`, behind the page -/
  modHilos : ∀ u u' form o c', u.hilos = hilos → view (.get .hilos) c u = .ok o →
    o.save = some c' → form.hilo = some e.1 → form.action ∈ [some "rename", some "delete"] →
    ActsOn Call.thread? e.2 (view (.post .modHilos form) c' u')

/-- `hilos` shows every thread of the reply once, and each of its entries leads to its own
thread. -/
structure HilosRight (hilos : List (String × String)) : Prop where
  page : ∀ c u, AtChannel c → u.hilos = hilos → ∃ o user chat mio err,
    view (.get .hilos) c u = .ok o ∧
      o.response = .page (.hilos user chat ((shownHilos hilos).map Prod.fst) mio err)
  shown : ∀ t ∈ hilos, (shownHilos hilos).filter (fun e => decide (e.2 = t.1)) = [(t.2, t.1)]
  selected : ∀ c, AtChannel c → ∀ e ∈ shownHilos hilos, HiloSelected c hilos e

/-- Names and ids stand for one another in the list of the channels, the owned channels are in it,
and its ids are as `strip` leaves them. A condition on the two replies. -/
structure NamesIdentify (chats mios : List Channel) : Prop where
  names : ∀ a ∈ chats, ∀ b ∈ chats, a.name = b.name ↔ a.id = b.id
  mine : ∀ m ∈ mios, ∃ a ∈ chats, a.name = m.name ∧ a.id = m.id
  trimmed : ∀ a ∈ chats, stripped a.id = a.id

/-- Titles and ids stand for one another in the list of the threads, and its ids are as `strip`
leaves them. -/
structure TitlesIdentify (hilos : List (String × String)) : Prop where
  titles : ∀ a ∈ hilos, ∀ b ∈ hilos, a.2 = b.2 ↔ a.1 = b.1
  trimmed : ∀ a ∈ hilos, stripped a.1 = a.1

/-! ## The lists -/

variable {chats mios : List Channel} {hilos : List (String × String)} {c c' : Session} {u : Replies}
  {e : Shown} {user : String}

theorem owned_iff {id : String} : owned mios id = true ↔ ∃ m ∈ mios, m.id = id := by
  simp [owned]

theorem mem_shownChannels : e ∈ shownChannels chats mios ↔
    e.mio = false ∧ e.name ∉ (byName mios).keys ∧
        (∃ canal, (byName chats).get? e.name = some canal ∧ canal.id = e.id) ∨
      e.mio = true ∧ ∃ canal, (byName mios).get? e.name = some canal ∧ canal.id = e.id := by
  unfold shownChannels
  obtain ⟨mio, name, id⟩ := e
  simp only [List.mem_append, List.mem_map, Shown.mk.injEq]
  constructor
  · rintro (⟨⟨n, canal⟩, hmem, rfl, rfl, rfl⟩ | ⟨⟨n, canal⟩, hmem, rfl, rfl, rfl⟩)
    · have hget := OrderedDict.get?_eq_some.mpr hmem
      rw [OrderedDict.get?_filter] at hget
      split at hget
      · rename_i hname
        exact Or.inl ⟨rfl, of_decide_eq_true hname, canal, hget, rfl⟩
      · cases hget
    · exact Or.inr ⟨rfl, canal, OrderedDict.get?_eq_some.mpr hmem, rfl⟩
  · rintro (⟨rfl, hname, canal, hget, rfl⟩ | ⟨rfl, canal, hget, rfl⟩)
    · refine Or.inl ⟨(name, canal), OrderedDict.get?_eq_some.mp ?_, rfl, rfl, rfl⟩
      rw [OrderedDict.get?_filter, if_pos (decide_eq_true hname)]
      exact hget
    · exact Or.inr ⟨(name, canal), OrderedDict.get?_eq_some.mp hget, rfl, rfl, rfl⟩

/-- A list of entries by their names has no entry twice. -/
theorem nodup_named (d : OrderedDict String Canal) (mio : Bool) :
    (d.entries.map fun e => (⟨mio, e.1, e.2.id⟩ : Shown)).Nodup := by
  refine List.Nodup.of_map Shown.name ?_
  rw [List.map_map]
  exact d.nodup

theorem nodup_shownChannels : (shownChannels chats mios).Nodup := by
  refine List.nodup_append.mpr ⟨nodup_named _ _, nodup_named _ _, ?_⟩
  intro a ha b hb hab
  obtain ⟨x, -, rfl⟩ := List.mem_map.mp ha
  obtain ⟨y, -, rfl⟩ := List.mem_map.mp hb
  cases hab

/-- Picking one element out of a list that has it once. -/
theorem filter_eq_singleton {α : Type} {l : List α} {p : α → Bool} {x : α} (hl : l.Nodup) :
    l.filter p = [x] ↔ ∀ y, y ∈ l ∧ p y = true ↔ y = x := by
  have hmem : ∀ y, y ∈ l.filter p ↔ y ∈ l ∧ p y = true := fun y => List.mem_filter
  constructor
  · intro h y
    rw [← hmem, h, List.mem_singleton]
  · intro h
    refine List.perm_singleton.mp ?_
    refine (List.perm_ext_iff_of_nodup (hl.filter _) (List.nodup_singleton x)).mpr fun y => ?_
    rw [hmem, h, List.mem_singleton]

/-- What the script is answered. -/
theorem mainAjax_success (hchats : u.chats = .success chats) (hmios : u.mios = .success mios)
    (c : Session) (userId : String) : mainAjax c userId u = ⟨some (c.listed chats mios),
      [.getChats userId, .getChatsMiosFiltrados userId, .obtenerTotalOnline], .json 200 ⟨true,
        ((shownChannels chats mios).filter fun e => !e.mio).map Shown.name,
        ((shownChannels chats mios).filter Shown.mio).map Shown.name, u.totalOnline, none⟩⟩ := by
  unfold mainAjax
  simp [hchats, hmios, shownChannels, List.filter_append, List.filter_map, Function.comp_def,
    OrderedDict.keys, Session.listed]

/-- A view makes its calls for one id. -/
theorem ActsOn.unique {of : Call → Option String} {id id' : String}
    {out : Except KeyError Outcome} (h : ActsOn of id out) (h' : ActsOn of id' out) : id = id' := by
  obtain ⟨o, rfl, hne, hcalls⟩ := h
  obtain ⟨o', ho, -, hcalls'⟩ := h'
  cases ho
  obtain ⟨call, hcall⟩ := List.exists_mem_of_ne_nil _ hne
  exact Option.some.inj ((hcalls call hcall).symm.trans (hcalls' call hcall))

/-! ## Choosing a channel -/

/-- What the dicts say of an entry is what the entry says. All that choosing it needs. -/
structure Resolved (chats mios : List Channel) (e : Shown) : Prop where
  channel : ∃ canal, (byName chats).get? e.name = some canal ∧ canal.id = e.id
  trimmed : stripped e.id = e.id
  mio : decide (e.name ∈ (byName mios).keys) = owned mios e.id
  modChat : e.mio = true → ∃ canal, (byName mios).get? e.name = some canal ∧ canal.id = e.id

theorem Resolved.channelId (h : Resolved chats mios e) (c : Session) :
    channelId ((c.listed chats mios).chosen e.name) = .ok e.id := by
  obtain ⟨canal, hget, hid⟩ := h.channel
  exact channelId_eq_ok.mpr ⟨_, e.name, canal, rfl, rfl, hget, hid⟩

theorem Resolved.listHilos (h : Resolved chats mios e) (hc : c.user = some user) (u : Replies) :
    listHilos ((c.listed chats mios).chosen e.name) u =
      .ok (((c.listed chats mios).chosen e.name).withHilos u.hilos,
        .hilos user (some e.name) (byTitle u.hilos).keys (owned mios e.id),
        .getHilosAPI e.id) := by
  refine listHilos_eq_ok.mpr ⟨e.id, e.name, _, user, h.channelId c, rfl, rfl, hc, ?_⟩
  rw [h.mio, h.trimmed]

/-- The participants of a channel, where `hilos` can list it. -/
theorem hilosPost_participants {id : String} {page : Option Err → Page} {getHilos : Call}
    {form : Form} (hon : onParticipants form.action = true)
    (hlist : listHilos c u = .ok (c', page, getHilos)) (hid : channelId c' = .ok id)
    (hget : getHilos.channel? = some id) : ActsOn Call.channel? id (hilosPost c form u) := by
  unfold hilosPost
  simp only [hlist, bind, Except.bind, pure, Except.pure, if_pos hon]
  split
  · exact ⟨_, rfl, by simp, by simpa using hget⟩
  · simp only [hid]
    have hcall : (if form.action = some "add_user" then Call.addUserToChannel id form.userId
        else .removeUserFromChannel id form.userId).channel? = some id := by
      split
      · rfl
      · rfl
    generalize (if form.action = some "add_user" then Call.addUserToChannel id form.userId
        else .removeUserFromChannel id form.userId) = call at hcall
    cases u.done with
    | ok => exact ⟨_, rfl, by simp, by simp [hget, hcall]⟩
    | error => exact ⟨_, rfl, by simp, by simp [hget, hcall]⟩

/-- A call behind which there is a redirection or a page. -/
theorem actsOn_afterCall {of : Call → Option String} {id : String} {call : Call}
    {done : Except ApiError Unit} {next : View} {page : ApiError → Except KeyError Response}
    (hcall : of call = some id) (hpage : ∀ err, ∃ p, page err = .ok p) :
    ActsOn of id (afterCall call done next page) := by
  unfold afterCall
  cases done with
  | ok => exact ⟨_, rfl, by simp, by simp [hcall]⟩
  | error err =>
    obtain ⟨p, hp⟩ := hpage err
    simp only [hp]
    exact ⟨_, rfl, by simp, by simp [hcall]⟩

theorem modChatPage_ok {d : OrderedDict String Canal} (h : c.canalesMios = some d)
    (err : Option Err) : modChatPage c err = .ok (.page (.modChat d.keys err)) := by
  unfold modChatPage
  rw [h]
  rfl

theorem modHilosPage_ok {d : OrderedDict String String} (h : c.hilosAll = some d)
    (err : Option Err) : modHilosPage c err = .ok (.page (.modHilos d.keys err)) := by
  unfold modHilosPage
  rw [h]
  rfl

/-- **A form of `mod_chat` acts on the id that `canales_mios` has for its name.** -/
theorem modChatPost_acts {d : OrderedDict String Canal} {canal : Canal} {name userId : String}
    {form : Form} (hd : c.canalesMios = some d) (hchat : form.chat = some name)
    (hget : d.get? name = some canal)
    (haction : form.action ∈
      [some "rename", some "delete", some "add_user", some "remove_user"]) :
    ActsOn Call.channel? canal.id (modChatPost c userId form u) := by
  have hitem : item .canalesMios d form.chat = .ok canal := item_eq_ok.mpr ⟨name, hchat, hget⟩
  have hpage : ∀ v (err : ApiError), ∃ p, modChatPage c (some (v, err.error)) = .ok p :=
    fun v err => ⟨_, modChatPage_ok hd _⟩
  unfold modChatPost
  rw [hd]
  simp only [lookup, hitem, bind, Except.bind]
  simp only [List.mem_cons, List.not_mem_nil, or_false] at haction
  rcases haction with ha | ha | ha | ha
  all_goals
    rw [ha, if_neg (by simp)]
    exact actsOn_afterCall rfl (hpage _)

/-- **A new thread goes to the channel of the session.** -/
theorem modHilosPost_creates {d : OrderedDict String String} {userId id : String} {form : Form}
    (hd : c.hilosAll = some d) (hid : channelId c = .ok id) (haction : form.action = some "create")
    (hname : stripped (form.newName.getD "") ≠ "") :
    ActsOn Call.channel? (stripped id) (modHilosPost c userId form u) := by
  unfold modHilosPost
  rw [if_pos haction, if_neg hname, hid]
  exact actsOn_afterCall rfl fun err => ⟨_, modHilosPage_ok hd _⟩

theorem Resolved.selected (h : Resolved chats mios e) (hc : LoggedIn c) :
    ChannelSelected c chats mios e := by
  obtain ⟨⟨userId, hid, hne⟩, huser⟩ := hc
  obtain ⟨user, huser⟩ := Option.ne_none_iff_exists'.mp huser
  have hview : ∀ r u, view r ((c.listed chats mios).chosen e.name) u =
      viewFor r ((c.listed chats mios).chosen e.name) userId u :=
    fun r u => view_eq (c := (c.listed chats mios).chosen e.name) hid hne r u
  have hhilos : ∀ u, view (.get .hilos) ((c.listed chats mios).chosen e.name) u =
      .ok ⟨some (((c.listed chats mios).chosen e.name).withHilos u.hilos),
        [.getHilosAPI e.id],
        .page (.hilos user (some e.name) (byTitle u.hilos).keys (owned mios e.id) none)⟩ := by
    intro u
    rw [hview, viewFor, h.listHilos huser u]
    rfl
  refine ⟨fun u form hnew hchat => ?_, fun u => ?_, fun u form hon => ?_,
    fun u u' form o c' ho hsave hact hname => ?_, fun u form hmio hchat hact => ?_⟩
  · rw [view_eq (c := c.listed chats mios) hid hne, viewFor, mainPost, if_neg hnew, hchat]
    rfl
  · exact ⟨_, user, _, none, hhilos u, rfl, _, rfl, by simp, by simp [Call.channel?]⟩
  · rw [hview]
    exact hilosPost_participants hon (h.listHilos huser u) (h.channelId c) rfl
  · rw [hhilos u, Except.ok.injEq] at ho
    subst ho
    cases hsave
    rw [view_eq (c := ((c.listed chats mios).chosen e.name).withHilos u.hilos) hid hne]
    have hacts : ActsOn Call.channel? (stripped e.id) (modHilosPost
        (((c.listed chats mios).chosen e.name).withHilos u.hilos) userId form u') :=
      modHilosPost_creates rfl (h.channelId c) hact hname
    rw [h.trimmed] at hacts
    exact hacts
  · obtain ⟨canal, hget, hcanal⟩ := h.modChat hmio
    rw [view_eq (c := c.listed chats mios) hid hne, ← hcanal]
    exact modChatPost_acts rfl hchat hget hact

/-- Names and ids stand for one another in the two lists together. -/
theorem NamesIdentify.same (h : NamesIdentify chats mios) {x y : Channel} (hx : x ∈ chats ++ mios)
    (hy : y ∈ chats ++ mios) : x.name = y.name ↔ x.id = y.id := by
  have hchat : ∀ z ∈ chats ++ mios, ∃ a ∈ chats, a.name = z.name ∧ a.id = z.id := by
    intro z hz
    rcases List.mem_append.mp hz with hz | hz
    · exact ⟨z, hz, rfl, rfl⟩
    · exact h.mine z hz
  obtain ⟨a, ha, hax, hax'⟩ := hchat x hx
  obtain ⟨b, hb, hby, hby'⟩ := hchat y hy
  rw [← hax, ← hby, ← hax', ← hby']
  exact h.names a ha b hb

/-- An entry is of a channel of one of the lists, and in its list by its name. -/
theorem shown_source (he : e ∈ shownChannels chats mios) :
    (∃ x ∈ chats ++ mios, x.name = e.name ∧ x.id = e.id) ∧
      e.mio = decide (e.name ∈ (byName mios).keys) := by
  rcases mem_shownChannels.mp he with ⟨hmio, hname, canal, hget, hid⟩ | ⟨hmio, canal, hget, hid⟩
  · obtain ⟨a, ha, hn, rfl⟩ := mem_of_byName hget
    exact ⟨⟨a, List.mem_append_left _ ha, hn, hid⟩, by simp [hmio, hname]⟩
  · obtain ⟨m, hm, hn, rfl⟩ := mem_of_byName hget
    have hkey : e.name ∈ (byName mios).keys := mem_keys_byName.mpr ⟨m, hm, hn⟩
    exact ⟨⟨m, List.mem_append_right _ hm, hn, hid⟩, by simp [hmio, hkey]⟩

/-- A name is owned where the id is. -/
theorem NamesIdentify.owned_name (h : NamesIdentify chats mios) {x : Channel}
    (hx : x ∈ chats ++ mios) : x.name ∈ (byName mios).keys ↔ owned mios x.id = true := by
  rw [mem_keys_byName, owned_iff]
  exact exists_congr fun m => and_congr_right fun hm =>
    h.same (List.mem_append_right _ hm) hx

/-- The last channel of a name has the id of every other. -/
theorem NamesIdentify.get (h : NamesIdentify chats mios) {l : List Channel} {x y : Channel}
    (hl : ∀ z ∈ l, z ∈ chats ++ mios) (hx : x ∈ chats ++ mios) (hy : y ∈ l)
    (hname : y.name = x.name) :
    ∃ canal, (byName l).get? x.name = some canal ∧ canal.id = x.id := by
  obtain ⟨z, hz, hzy, hget⟩ := byName_get hy
  rw [hname] at hzy hget
  exact ⟨z.canal, hget, (h.same (hl z hz) hx).mp hzy⟩

/-- **An entry of `main` is resolved where names and ids stand for one another.** -/
theorem NamesIdentify.resolved (h : NamesIdentify chats mios)
    (he : e ∈ shownChannels chats mios) : Resolved chats mios e := by
  obtain ⟨⟨x, hx, hname, hid⟩, hmio⟩ := shown_source he
  obtain ⟨a, ha, han, hai⟩ : ∃ a ∈ chats, a.name = x.name ∧ a.id = x.id := by
    rcases List.mem_append.mp hx with hx | hx
    · exact ⟨x, hx, rfl, rfl⟩
    · exact h.mine x hx
  refine ⟨?_, ?_, ?_, fun hmine => ?_⟩
  · rw [← hname, ← hid]
    exact h.get (fun z hz => List.mem_append_left _ hz) hx ha han
  · rw [← hid, ← hai]
    exact h.trimmed a ha
  · rw [← hname, ← hid, Bool.eq_iff_iff, decide_eq_true_eq]
    exact h.owned_name hx
  · rcases mem_shownChannels.mp he with ⟨hfalse, -⟩ | ⟨-, hget⟩
    · rw [hfalse] at hmine
      cases hmine
    · exact hget

theorem NamesIdentify.shown (h : NamesIdentify chats mios) {ch : Channel} (hch : ch ∈ chats ++ mios) :
    (shownChannels chats mios).filter (fun e => decide (e.id = ch.id)) =
      [⟨owned mios ch.id, ch.name, ch.id⟩] := by
  rw [filter_eq_singleton nodup_shownChannels]
  intro y
  rw [decide_eq_true_eq]
  constructor
  · rintro ⟨hy, hyid⟩
    obtain ⟨⟨x, hx, hname, hid⟩, hmio⟩ := shown_source hy
    have hxn : x.name = ch.name := (h.same hx hch).mpr (hid.trans hyid)
    have hown : y.mio = owned mios ch.id := by
      rw [hmio, ← hname, hxn, Bool.eq_iff_iff, decide_eq_true_eq]
      exact h.owned_name hch
    obtain ⟨mio, name, id⟩ := y
    simp only at hyid hname hown
    rw [hown, ← hname, hxn, hyid]
  · rintro rfl
    refine ⟨mem_shownChannels.mpr ?_, rfl⟩
    by_cases hown : owned mios ch.id = true
    · obtain ⟨m, hm, hmn⟩ := mem_keys_byName.mp ((h.owned_name hch).mpr hown)
      exact Or.inr ⟨hown, h.get (fun z hz => List.mem_append_right _ hz) hch hm hmn⟩
    · have hnot : ch.name ∉ (byName mios).keys := fun hk => hown ((h.owned_name hch).mp hk)
      have hchat : ch ∈ chats := by
        refine (List.mem_append.mp hch).resolve_right fun hm => hown ?_
        exact owned_iff.mpr ⟨ch, hm, rfl⟩
      exact Or.inl ⟨Bool.not_eq_true _ ▸ hown, hnot,
        h.get (fun z hz => List.mem_append_left _ hz) hch hchat rfl⟩

/-- Where choosing an entry ends, `canales_all` has its name, and its id but for blanks. The way
back from what the pages do to what the replies had. -/
theorem ChannelSelected.source (h : ChannelSelected c chats mios e) (hc : LoggedIn c) :
    ∃ a ∈ chats, a.name = e.name ∧ (byName chats).get? e.name = some a.canal ∧
      stripped a.id = e.id := by
  obtain ⟨⟨userId, hid, hne⟩, -⟩ := hc
  obtain ⟨o, _, _, _, ho, -, o', ho', -, hcalls⟩ :=
    h.hilos ⟨.failure "", .failure "", none, [], .ok (), none, none⟩
  cases ho'
  rw [view_eq (c := (c.listed chats mios).chosen e.name) hid hne, viewFor, map_eq_ok] at ho
  obtain ⟨out, hlist, rfl⟩ := ho
  obtain ⟨id, name, mios', user, hchannel, -, -, -, rfl⟩ := listHilos_eq_ok.mp hlist
  obtain ⟨canales, name, canal, hall, hchat, hget, rfl⟩ := channelId_eq_ok.mp hchannel
  cases hall
  cases hchat
  obtain ⟨a, ha, hname, rfl⟩ := mem_of_byName hget
  exact ⟨a, ha, hname, hget, by simpa [Call.channel?, Channel.canal] using hcalls⟩

theorem ChannelsRight.mem_shown (h : ChannelsRight chats mios) {ch : Channel}
    (hch : ch ∈ chats ++ mios) : ⟨owned mios ch.id, ch.name, ch.id⟩ ∈ shownChannels chats mios := by
  have hmem : (⟨owned mios ch.id, ch.name, ch.id⟩ : Shown) ∈
      (shownChannels chats mios).filter (fun e => decide (e.id = ch.id)) := by
    rw [h.shown ch hch]
    exact List.mem_singleton_self _
  exact (List.mem_filter.mp hmem).1

/-- Someone who has logged in. -/
def visitor : Session := ⟨some "1", some "ana", none, none, none, none, none⟩

theorem visitor_loggedIn : LoggedIn visitor := ⟨⟨"1", rfl, by decide⟩, by simp [visitor]⟩

/-- **The channels are shown and chosen right exactly where names and ids stand for one another.**
From left to right by the pages of a visitor, which are among those that the left side is about. -/
theorem channelsRight_iff : ChannelsRight chats mios ↔ NamesIdentify chats mios := by
  constructor
  · intro h
    have hsource : ∀ x ∈ chats ++ mios, ∃ a ∈ chats, a.name = x.name ∧
        (byName chats).get? x.name = some a.canal ∧ stripped a.id = x.id := fun x hx =>
      (h.selected visitor visitor_loggedIn _ (h.mem_shown hx)).source visitor_loggedIn
    have hchat : ∀ a ∈ chats, a ∈ chats ++ mios := fun a ha => List.mem_append_left _ ha
    -- two channels of a name are both the one the dict has
    have hsame : ∀ x ∈ chats ++ mios, ∀ y ∈ chats ++ mios, x.name = y.name → x.id = y.id := by
      intro x hx y hy hxy
      obtain ⟨a, -, -, ha, hax⟩ := hsource x hx
      obtain ⟨b, -, -, hb, hby⟩ := hsource y hy
      rw [hxy, hb, Option.some.injEq] at ha
      have hab : b.id = a.id := congrArg Canal.id ha
      rw [← hax, ← hby, hab]
    refine ⟨fun a ha b hb => ⟨hsame a (hchat a ha) b (hchat b hb), fun hid => ?_⟩,
      fun m hm => ?_, fun a ha => ?_⟩
    · have hshown := h.shown a (hchat a ha)
      rw [hid, h.shown b (hchat b hb)] at hshown
      simp only [List.cons.injEq, Shown.mk.injEq, and_true, true_and] at hshown
      exact hshown.symm
    · obtain ⟨a, ha, hname, -, -⟩ := hsource m (List.mem_append_right _ hm)
      exact ⟨a, ha, hname, hsame a (hchat a ha) m (List.mem_append_right _ hm) hname⟩
    · obtain ⟨b, hb, hname, -, htrim⟩ := hsource a (hchat a ha)
      have hid := hsame b (hchat b hb) a (hchat a ha) hname
      rw [← hid, htrim, hid]
  · intro h
    refine ⟨fun c u hc hchats hmios => ?_, fun ch hch => h.shown hch,
      fun c hc e he => (h.resolved he).selected hc⟩
    obtain ⟨⟨userId, hid, hne⟩, -⟩ := hc
    rw [view_eq hid hne, viewFor, mainAjax_success hchats hmios]
    exact ⟨_, rfl, rfl, rfl⟩

/-! ## Choosing a thread -/

theorem mem_shownHilos {e : String × String} :
    e ∈ shownHilos hilos ↔ (byTitle hilos).get? e.1 = some e.2 :=
  OrderedDict.get?_eq_some.symm

theorem nodup_shownHilos : (shownHilos hilos).Nodup := List.Nodup.of_map Prod.fst (byTitle hilos).nodup

/-- The last thread of a title has the id of every other. -/
theorem TitlesIdentify.get (h : TitlesIdentify hilos) {t : String × String} (ht : t ∈ hilos) :
    (byTitle hilos).get? t.2 = some t.1 := by
  obtain ⟨id, hid, hget⟩ := byTitle_get ht
  have hsame : id = t.1 := (h.titles _ hid _ ht).mp rfl
  rw [hget, hsame]

theorem TitlesIdentify.shown (h : TitlesIdentify hilos) {t : String × String} (ht : t ∈ hilos) :
    (shownHilos hilos).filter (fun e => decide (e.2 = t.1)) = [(t.2, t.1)] := by
  rw [filter_eq_singleton nodup_shownHilos]
  rintro ⟨title, id⟩
  rw [decide_eq_true_eq, mem_shownHilos]
  constructor
  · rintro ⟨hget, rfl⟩
    have htitle := (h.titles _ (mem_of_byTitle hget) _ ht).mpr rfl
    simp only at htitle
    rw [htitle]
  · intro heq
    cases heq
    exact ⟨h.get ht, rfl⟩

/-- A session that is at a channel lists its threads. -/
theorem AtChannel.lists (h : AtChannel c) (u : Replies) : ∃ page getHilos,
    listHilos c u = .ok (c.withHilos u.hilos, page, getHilos) ∧
      ∃ user chat mio, ∀ err, page err = .hilos user chat (byTitle u.hilos).keys mio err := by
  obtain ⟨id, hid⟩ := h.channel
  obtain ⟨mios, hmios⟩ := Option.ne_none_iff_exists'.mp h.mios
  obtain ⟨user, huser⟩ := Option.ne_none_iff_exists'.mp h.loggedIn.2
  obtain ⟨-, name, -, -, hchat, -, -⟩ := channelId_eq_ok.mp hid
  exact ⟨_, _, listHilos_eq_ok.mpr ⟨id, name, mios, user, hid, hchat, hmios, huser, rfl⟩, user,
    some name, _, fun _ => rfl⟩

/-- Behind the form of `hilos`, the session has the threads just listed and the title chosen. -/
theorem hilosPost_chooses {page : Option Err → Page} {getHilos : Call} {form : Form}
    (hlist : listHilos c u = .ok (c', page, getHilos)) (hon : onParticipants form.action = false) :
    hilosPost c form u = .ok ⟨some (c'.atHilo form.hilo), [getHilos],
      .redirect (if form.newThread = some "1" then .modHilos else .mensajes)⟩ := by
  unfold hilosPost
  simp only [hlist, bind, Except.bind, pure, Except.pure, hon, Bool.false_eq_true, if_false]
  rfl

/-- The page of a thread is made by its id. -/
theorem mensajesPage_acts (id : String) (u : Replies) : (mensajesPage id u).2 ≠ [] ∧
    ∀ call ∈ (mensajesPage id u).2, call.thread? = some id := by
  unfold mensajesPage
  cases u.mensajes with
  | none => exact ⟨by simp, by simp [Call.thread?]⟩
  | some ids => exact ⟨by simp, by simp [Call.thread?]⟩

/-- A text, and the files with it, go to the thread. -/
theorem composerCalls_acts {form : Form} {texto : String} (htexto : form.mensaje = some texto)
    (hne : texto ≠ "") (id userId : String) (mensajeId : Option String) :
    composerCalls id userId form mensajeId ≠ [] ∧
      ∀ call ∈ composerCalls id userId form mensajeId, call.thread? = some id := by
  unfold composerCalls
  simp only [htexto, if_neg hne]
  refine ⟨by simp, fun call hcall => ?_⟩
  rcases List.mem_cons.mp hcall with rfl | hcall
  · rfl
  · cases mensajeId with
    | none => cases hcall
    | some m =>
      simp only at hcall
      split at hcall
      · cases hcall
      · obtain ⟨_, -, rfl⟩ := List.mem_map.mp hcall
        rfl

/-- **`mensajes` acts on the thread of the session.** -/
theorem mensajes_acts {id : String} (h : currentThread c = .ok id) (userId : String) :
    (∀ u, ActsOn Call.thread? id (mensajes c userId (.get .mensajes) u)) ∧
      ∀ u form, (∃ texto, form.mensaje = some texto ∧ texto ≠ "") →
        ActsOn Call.thread? id (mensajes c userId (.post .mensajes form) u) := by
  refine ⟨fun u => ?_, fun u form ⟨texto, htexto, hne⟩ => ?_⟩
  · unfold mensajes
    rw [h]
    exact ⟨_, rfl, mensajesPage_acts id u⟩
  · unfold mensajes
    rw [h]
    exact ⟨_, rfl, composerCalls_acts htexto hne id userId _⟩

/-- **A form of `mod_hilos` acts on the id that `hilos_all` has for its title.** -/
theorem modHilosPost_acts {d : OrderedDict String String} {userId title id : String} {form : Form}
    (hd : c.hilosAll = some d) (hhilo : form.hilo = some title) (hget : d.get? title = some id)
    (haction : form.action ∈ [some "rename", some "delete"]) :
    ActsOn Call.thread? id (modHilosPost c userId form u) := by
  have hitem : item .hilosAll d form.hilo = .ok id := item_eq_ok.mpr ⟨title, hhilo, hget⟩
  have hpage : ∀ v (err : ApiError), ∃ p, modHilosPage c (some (v, err.error)) = .ok p :=
    fun v err => ⟨_, modHilosPage_ok hd _⟩
  unfold modHilosPost
  simp only [List.mem_cons, List.not_mem_nil, or_false] at haction
  rcases haction with ha | ha
  all_goals
    rw [ha, if_neg (by simp), hd]
    simp only [lookup, hitem, bind, Except.bind]
    exact actsOn_afterCall rfl (hpage _)

/-- The page of the threads, and the session behind it. -/
theorem AtChannel.get_hilos (h : AtChannel c) (hu : u.hilos = hilos) : ∃ user chat mio getHilos,
    view (.get .hilos) c u = .ok ⟨some (c.withHilos hilos), [getHilos],
      .page (.hilos user chat ((shownHilos hilos).map Prod.fst) mio none)⟩ := by
  obtain ⟨page, getHilos, hlist, user, chat, mio, hpage⟩ := h.lists u
  obtain ⟨userId, hid, hne⟩ := h.loggedIn.1
  refine ⟨user, chat, mio, getHilos, ?_⟩
  rw [view_eq hid hne, viewFor, hlist, ← hu]
  show Except.ok (Outcome.mk _ [getHilos] (.page (page none))) = _
  rw [hpage]
  rfl

/-- **An entry of `hilos` leads to its thread where titles and ids stand for one another.** -/
theorem TitlesIdentify.selected (h : TitlesIdentify hilos) (hc : AtChannel c)
    {e : String × String} (he : e ∈ shownHilos hilos) : HiloSelected c hilos e := by
  have hget : (byTitle hilos).get? e.1 = some e.2 := mem_shownHilos.mp he
  have htrim : stripped e.2 = e.2 := h.trimmed (e.2, e.1) (mem_of_byTitle hget)
  obtain ⟨userId, hid, hne⟩ := hc.loggedIn.1
  refine ⟨fun u form o c' hu hhilo hon ho hsave => ?_,
    fun u u' form o c' hu ho hsave hhilo haction => ?_⟩
  · obtain ⟨page, getHilos, hlist, -⟩ := hc.lists u
    have hpost := hilosPost_chooses hlist hon
    rw [view_eq hid hne, viewFor, hpost, Except.ok.injEq] at ho
    subst ho
    cases hsave
    have hthread : currentThread ((c.withHilos u.hilos).atHilo form.hilo) = .ok e.2 := by
      refine currentThread_eq_ok.mpr ⟨byTitle hilos, e.1, e.2, ?_, congrArg some hhilo, hget, htrim⟩
      rw [← hu]
      rfl
    have hacts := mensajes_acts hthread userId
    refine ⟨fun u' => ?_, fun u' form' htexto => ?_⟩
    · rw [view_eq (c := (c.withHilos u.hilos).atHilo form.hilo) hid hne]
      exact hacts.1 u'
    · rw [view_eq (c := (c.withHilos u.hilos).atHilo form.hilo) hid hne]
      exact hacts.2 u' form' htexto
  · obtain ⟨user, chat, mio, getHilos, hview⟩ := hc.get_hilos hu
    rw [hview, Except.ok.injEq] at ho
    subst ho
    cases hsave
    rw [view_eq (c := c.withHilos hilos) hid hne]
    exact modHilosPost_acts rfl hhilo hget haction

/-- At the channel `general`. -/
def atGeneral : Session :=
  ((visitor.listed [⟨"1", "general", 1, "public"⟩] []).chosen "general")

theorem atGeneral_atChannel : AtChannel atGeneral := by
  refine ⟨⟨⟨"1", rfl, by decide⟩, by simp [atGeneral, visitor, Session.listed, Session.chosen]⟩,
    ⟨"1", by decide⟩, by simp [atGeneral, visitor, Session.listed, Session.chosen]⟩

/-- Choosing an entry of `hilos` goes by the id that `hilos_all` has for its title, but for
blanks. -/
theorem HiloSelected.source {e : String × String} (h : HiloSelected c hilos e) (hc : AtChannel c)
    (he : e ∈ shownHilos hilos) : stripped e.2 = e.2 := by
  have hget : (byTitle hilos).get? e.1 = some e.2 := mem_shownHilos.mp he
  obtain ⟨userId, hid, hne⟩ := hc.loggedIn.1
  let u : Replies := ⟨.failure "", .failure "", none, hilos, .ok (), none, none⟩
  let form : Form := ⟨none, none, none, none, none, none, some e.1, none, none, []⟩
  obtain ⟨page, getHilos, hlist, -⟩ := hc.lists u
  have hon : onParticipants form.action = false := rfl
  have hpost := hilosPost_chooses hlist hon
  have hview : view (.post .hilos form) c u =
      .ok ⟨some ((c.withHilos hilos).atHilo (some e.1)), [getHilos], .redirect .mensajes⟩ := by
    rw [view_eq hid hne, viewFor, hpost]
    rfl
  have hthread : currentThread ((c.withHilos hilos).atHilo (some e.1)) = .ok (stripped e.2) :=
    currentThread_eq_ok.mpr ⟨byTitle hilos, e.1, e.2, rfl, rfl, hget, rfl⟩
  have hacts := (h.mensajes u form _ _ rfl rfl rfl hview rfl).1 u
  rw [view_eq (c := (c.withHilos hilos).atHilo (some e.1)) hid hne] at hacts
  exact ((mensajes_acts hthread userId).1 u).unique hacts

theorem HilosRight.mem_shown (h : HilosRight hilos) {t : String × String} (ht : t ∈ hilos) :
    (t.2, t.1) ∈ shownHilos hilos := by
  have hmem : (t.2, t.1) ∈ (shownHilos hilos).filter (fun e => decide (e.2 = t.1)) := by
    rw [h.shown t ht]
    exact List.mem_singleton_self _
  exact (List.mem_filter.mp hmem).1

/-- **The threads are shown and chosen right exactly where titles and ids stand for one another.**
From left to right by a session at one channel. -/
theorem hilosRight_iff : HilosRight hilos ↔ TitlesIdentify hilos := by
  constructor
  · intro h
    refine ⟨fun a ha b hb => ⟨fun htitle => ?_, fun hid => ?_⟩, fun a ha => ?_⟩
    · -- the dict has one id for a title
      have hget := mem_shownHilos.mp (h.mem_shown ha)
      rw [htitle, mem_shownHilos.mp (h.mem_shown hb), Option.some.injEq] at hget
      exact hget.symm
    · have hshown := h.shown a ha
      rw [hid, h.shown b hb] at hshown
      exact (Prod.mk.inj (List.singleton_inj.mp hshown)).1.symm
    · exact (h.selected _ atGeneral_atChannel _ (h.mem_shown ha)).source atGeneral_atChannel
        (h.mem_shown ha)
  · intro h
    refine ⟨fun c u hc hu => ?_, fun t ht => h.shown ht, fun c hc e he => h.selected hc he⟩
    obtain ⟨user, chat, mio, getHilos, hview⟩ := hc.get_hilos hu
    exact ⟨_, user, chat, mio, none, hview, rfl⟩

/-! ## Channels and threads -/

/-- **Every entry is shown once and leads to what it was built from exactly where names and
titles stand for their ids.** An entry leads somewhere by the form it is shown with: the name goes
back to the server as it was shown, so it has no line break that a browser would rewrite. -/
theorem navigation_right_iff :
    ChannelsRight chats mios ∧ HilosRight hilos ↔
      NamesIdentify chats mios ∧ TitlesIdentify hilos := by
  rw [channelsRight_iff, hilosRight_iff]

/-- Two channels called `general`: only the second is shown. -/
theorem same_name_hides : ¬ (ChannelsRight
    [⟨"1", "general", 2, "public"⟩, ⟨"2", "general", 3, "public"⟩] [] ∧ HilosRight []) := by
  rintro ⟨h, -⟩
  have hshown := h.shown ⟨"1", "general", 2, "public"⟩ (by simp)
  revert hshown
  decide

end MessagesApp.Pages
