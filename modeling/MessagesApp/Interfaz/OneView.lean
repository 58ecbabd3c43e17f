import MessagesApp.Interfaz.Navigation

/-!
# What one view does

Everything that a view of the pages asks for, by the ids that its calls carry (`Uses`), and
everything that it writes back (`Wrote`). `does_view` goes once through all the views of `views.py`,
so that what holds of a session over the requests of a run is a case analysis over these two, with
no view unfolded again: `Navigation`, `Sessions` and `Reach` use it so.

Where an id comes from is the dict of the session that it was looked up in. `strip` may stand
between the two, as the views call it on some of the ids before they ask (`OfChannel`, `OfHilos`).
What was posted to a view is never an id: it is a name that is looked up.
-/

set_option autoImplicit false

namespace MessagesApp.Pages

open Interfaz (stripped)

/-- An id of `canales_mios`, which only `mod_chat` looks in. -/
def OfMios (c : Session) (id : String) : Prop :=
  ∃ d name canal, c.canalesMios = some d ∧ d.get? name = some canal ∧ canal.id = id

/-- The id of the channel that the session is at, as it is or as `strip` leaves it. -/
def OfChannel (c : Session) (id : String) : Prop :=
  ∃ chan, channelId c = .ok chan ∧ (id = chan ∨ id = stripped chan)

/-- An id of `hilos_all`, as it is or as `strip` leaves it. -/
def OfHilos (c : Session) (id : String) : Prop :=
  ∃ d title raw, c.hilosAll = some d ∧ d.get? title = some raw ∧ (id = raw ∨ id = stripped raw)

def isModChat : Request → Bool
  | .post .modChat _ => true
  | _ => false

/-- Where the id of a call comes from: a call without one; one for a channel of the user's own, of
`mod_chat`; one for the channel the session is at, of every other view; or one for a thread of
`hilos_all`. -/
inductive Uses (c : Session) (r : Request) (call : Call) : Prop
  | quiet : call.channel? = none → call.thread? = none → Uses c r call
  | mio {id : String} : isModChat r = true → call.channel? = some id → OfMios c id → Uses c r call
  | channel {id : String} : isModChat r = false → call.channel? = some id → OfChannel c id →
      Uses c r call
  | thread {id : String} : call.thread? = some id → OfHilos c id → Uses c r call

/-- What a view writes back: the lists of `main`, the threads of `hilos`, or what was chosen. The
threads are those of the call that the view made for the channel of the session, so the two are
written together. -/
inductive Wrote (c : Session) (r : Request) (u : Replies) (calls : List Call) : Session → Prop
  | lists {chats mios : List Channel} : r = .ajax .main → u.chats = .success chats →
      u.mios = .success mios → Wrote c r u calls (c.listed chats mios)
  | threads {chan : String} {hilo : Option (Option String)} : channelId c = .ok chan →
      .getHilosAPI (stripped chan) ∈ calls →
      Wrote c r u calls { c.withHilos u.hilos with hiloActual := hilo }
  | chosen {chat : Option (Option String)} : Wrote c r u calls { c with chatActual := chat }

/-- A view acts on ids of the session that it has read, and writes back what `Wrote` has. -/
structure Does (c : Session) (r : Request) (u : Replies) (o : Outcome) : Prop where
  calls : ∀ call ∈ o.calls, Uses c r call
  save : ∀ c', o.save = some c' → Wrote c r u o.calls c'

variable {c : Session} {r : Request} {u : Replies} {form : Form} {userId : String}
  {o : Outcome}

/-- A view that writes nothing back. -/
theorem Does.unsaved (hsave : o.save = none) (hcalls : ∀ call ∈ o.calls, Uses c r call) :
    Does c r u o := by
  refine ⟨hcalls, fun c' h => ?_⟩
  rw [hsave] at h
  cases h

/-- The call of a form, whatever came of it. -/
theorem does_afterCall {call : Call} {done : Except ApiError Unit} {next : View}
    {page : ApiError → Except KeyError Response} (hcall : Uses c r call)
    (h : afterCall call done next page = .ok o) : Does c r u o := by
  have hone : ∀ call' ∈ [call], Uses c r call' := by
    intro call' hmem
    rw [List.mem_singleton.mp hmem]
    exact hcall
  unfold afterCall at h
  cases done with
  | ok =>
    cases h
    exact .unsaved rfl hone
  | error e =>
    obtain ⟨p, -, rfl⟩ := map_eq_ok.mp h
    exact .unsaved rfl hone

theorem does_modChatPost (h : modChatPost c userId form u = .ok o) :
    Does c (.post .modChat form) u o := by
  unfold modChatPost at h
  split at h
  · exact does_afterCall (.quiet rfl rfl) h
  · obtain ⟨d, hd, h⟩ := bind_eq_ok.mp h
    obtain ⟨canal, hcanal, h⟩ := bind_eq_ok.mp h
    obtain ⟨name, -, hget⟩ := item_eq_ok.mp hcanal
    have hmios : OfMios c canal.id := ⟨d, name, canal, lookup_eq_ok.mp hd, hget, rfl⟩
    split at h
    · exact does_afterCall (.mio rfl rfl hmios) h
    · exact does_afterCall (.mio rfl rfl hmios) h
    · exact does_afterCall (.mio rfl rfl hmios) h
    · exact does_afterCall (.mio rfl rfl hmios) h
    · cases h
      exact .unsaved rfl (by simp)

/-- `hilos`, up to its two methods: what it writes back, and its call. Which thread is then current
is the method's own. -/
theorem does_listHilos {out : Session × (Option Err → Page) × Call}
    (hr : isModChat r = false) (h : listHilos c u = .ok out) :
    Uses c r out.2.2 ∧ channelId out.1 = channelId c ∧
      ∀ calls, out.2.2 ∈ calls → ∀ hilo, Wrote c r u calls { out.1 with hiloActual := hilo } := by
  obtain ⟨id, name, mios, user, hid, -, -, -, rfl⟩ := listHilos_eq_ok.mp h
  exact ⟨.channel hr rfl ⟨id, hid, Or.inr rfl⟩, rfl,
    fun calls hmem hilo => .threads hid hmem⟩

theorem does_hilosPost (h : hilosPost c form u = .ok o) : Does c (.post .hilos form) u o := by
  obtain ⟨⟨c', page, getHilos⟩, hout, h⟩ := bind_eq_ok.mp h
  obtain ⟨hget, hchan, hwrote⟩ := does_listHilos (r := .post .hilos form) rfl hout
  simp only at h hget hchan hwrote
  have hsaved : ∀ {calls c''}, some c' = some c'' → getHilos ∈ calls →
      Wrote c (.post .hilos form) u calls c'' := by
    intro calls c'' heq hmem
    cases heq
    exact hwrote calls hmem c'.hiloActual
  split at h
  · split at h
    · cases h
      exact ⟨by simpa using hget, fun c'' hc'' => hsaved hc'' List.mem_cons_self⟩
    · obtain ⟨id, hid, h⟩ := bind_eq_ok.mp h
      rw [hchan] at hid
      have hcall : Uses c (.post .hilos form) (if form.action = some "add_user" then
          Call.addUserToChannel id form.userId else .removeUserFromChannel id form.userId) := by
        split
        · exact .channel rfl rfl ⟨id, hid, Or.inl rfl⟩
        · exact .channel rfl rfl ⟨id, hid, Or.inl rfl⟩
      split at h
      · cases h
        exact ⟨by simpa using ⟨hget, hcall⟩, fun c'' hc'' => hsaved hc'' List.mem_cons_self⟩
      · cases h
        exact ⟨by simpa using ⟨hget, hcall⟩, fun c'' hc'' => hsaved hc'' List.mem_cons_self⟩
  · cases h
    refine ⟨by simpa using hget, fun c'' hc'' => ?_⟩
    cases hc''
    exact hwrote _ List.mem_cons_self _

theorem does_modHilosPost (h : modHilosPost c userId form u = .ok o) :
    Does c (.post .modHilos form) u o := by
  unfold modHilosPost at h
  split at h
  · simp only at h
    split at h
    · obtain ⟨_, -, h⟩ := bind_eq_ok.mp h
      cases h
      exact .unsaved rfl (by simp)
    · obtain ⟨id, hid, h⟩ := bind_eq_ok.mp h
      exact does_afterCall (.channel rfl rfl ⟨id, hid, Or.inr rfl⟩) h
  · obtain ⟨d, hd, h⟩ := bind_eq_ok.mp h
    have hitem : ∀ id, item .hilosAll d form.hilo = .ok id → OfHilos c id := by
      intro id hid
      obtain ⟨title, -, hget⟩ := item_eq_ok.mp hid
      exact ⟨d, title, id, lookup_eq_ok.mp hd, hget, Or.inl rfl⟩
    split at h
    · obtain ⟨id, hid, h⟩ := bind_eq_ok.mp h
      exact does_afterCall (.thread rfl (hitem id hid)) h
    · obtain ⟨id, hid, h⟩ := bind_eq_ok.mp h
      exact does_afterCall (.thread rfl (hitem id hid)) h
    · cases h
      exact .unsaved rfl (by simp)

theorem does_mensajes (h : mensajes c userId r u = .ok o) : Does c r u o := by
  obtain ⟨hsave, id, hid, hcalls⟩ := mensajes_calls h
  obtain ⟨d, title, raw, hd, -, hget, rfl⟩ := currentThread_eq_ok.mp hid
  have hthread : OfHilos c (stripped raw) := ⟨d, title, raw, hd, hget, Or.inr rfl⟩
  refine .unsaved hsave fun call hcall => ?_
  rcases hcalls call hcall with rfl | ⟨_, rfl⟩ | ⟨_, rfl⟩ | ⟨_, _, rfl⟩
  · exact .thread rfl hthread
  · exact .thread rfl hthread
  · exact .thread rfl hthread
  · exact .thread rfl hthread

theorem does_mainAjax : Does c (.ajax .main) u (mainAjax c userId u) := by
  refine ⟨fun call hcall => ?_, fun c' hc' => ?_⟩
  · rcases mainAjax_calls hcall with rfl | rfl | rfl
    · exact .quiet rfl rfl
    · exact .quiet rfl rfl
    · exact .quiet rfl rfl
  · rcases mainAjax_cases c userId u with
      ⟨chats, mios, d, hchats, hmios, hsave, -⟩ | ⟨hsave, -⟩
    · rw [hsave] at hc'
      cases hc'
      exact .lists rfl hchats hmios
    · rw [hsave] at hc'
      cases hc'

theorem does_hilos (hr : isModChat r = false) (h : viewFor (.get .hilos) c userId u = .ok o) :
    Does c r u o := by
  obtain ⟨id, hid, hsave, hcalls⟩ := hilos_read h
  have hmem : Call.getHilosAPI (stripped id) ∈ o.calls := by
    rw [hcalls]
    exact List.mem_singleton_self _
  refine ⟨fun call hcall => ?_, fun c' hc' => ?_⟩
  · rw [hcalls, List.mem_singleton] at hcall
    subst hcall
    exact .channel hr rfl ⟨id, hid, Or.inr rfl⟩
  · rw [hsave] at hc'
    cases hc'
    exact .threads hid hmem

/-- **A view acts on ids of the session, and puts there only what was listed.** For every request,
every session, and every behaviour of the APIs; where a view raises there is nothing to say, as no
session is saved then. -/
theorem does_view (h : view r c u = .ok o) : Does c r u o := by
  unfold view at h
  split at h
  · cases h
    exact .unsaved rfl (by simp)
  · split at h
    · cases h
      exact .unsaved rfl (by simp)
    · rename_i userId _ _
      unfold viewFor at h
      split at h
      · cases h
        exact .unsaved rfl (by simp)
      · cases h
        exact does_mainAjax
      · cases h
        unfold mainPost
        split
        · exact .unsaved rfl (by simp)
        · refine ⟨by simp, fun c' hc' => ?_⟩
          cases hc'
          exact .chosen
      · obtain ⟨p, -, rfl⟩ := map_eq_ok.mp h
        exact .unsaved rfl (by simp)
      · obtain ⟨p, -, rfl⟩ := map_eq_ok.mp h
        exact .unsaved rfl (by simp)
      · exact does_modChatPost h
      · have hread : viewFor (.get .hilos) c userId u = .ok o := h
        exact does_hilos rfl hread
      · have hread : viewFor (.get .hilos) c userId u = .ok o := h
        exact does_hilos rfl hread
      · exact does_hilosPost h
      · obtain ⟨p, -, rfl⟩ := map_eq_ok.mp h
        exact .unsaved rfl (by simp)
      · obtain ⟨p, -, rfl⟩ := map_eq_ok.mp h
        exact .unsaved rfl (by simp)
      · exact does_modHilosPost h
      · exact does_mensajes h
      · exact does_mensajes h
      · exact does_mensajes h

/-- **What a view writes back is of the user that it has read**, and nothing is written for
nobody. -/
theorem view_save {c' : Session} (h : view r c u = .ok o) (hs : o.save = some c') :
    c'.userId = c.userId ∧ c'.user = c.user ∧ c.userId ≠ none := by
  have hsome : c.userId ≠ none := by
    intro hnone
    unfold view at h
    rw [hnone] at h
    cases h
    cases hs
  cases (does_view h).save c' hs with
  | lists => exact ⟨rfl, rfl, hsome⟩
  | threads => exact ⟨rfl, rfl, hsome⟩
  | chosen => exact ⟨rfl, rfl, hsome⟩

end MessagesApp.Pages
