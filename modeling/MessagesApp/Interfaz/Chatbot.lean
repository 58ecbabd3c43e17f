import MessagesApp.Lib.WriteBack
import MessagesApp.Py.Value

/-!
# The chatbots

`chatbot_view` (`views.py` 464–492) keeps the history of each bot in the session. A POST takes the
history from the session it has read, asks the bot, which may take as long as the gateways do, and
writes the whole session back with the message and the reply behind the history. The page sends the
next message without waiting for the reply to the last (chat_template.html 105–132), so two POSTs of
one session overlap easily, and the one that is answered last writes the history that it has read
over what the other has written (`overlapping_loses`).

The session in the database and the copies of the requests under way are `Lib.WriteBack`, with an
exchange as the change that a request makes: a step here is a step there (`plain_step`), and what is
kept of the exchanges is what that library says of changes that each add weight, here two entries
(`adds`). So `kept_iff` says exactly when none is lost: when every request that writes one writes it
behind the session that it has read. The condition is about the order of reads and writes; what the
bots answer plays no part.

`API_CB` (`utils.py` 1018–1055) asks one gateway after the other. Of its text for an error the
wording is the source's; a `str` of Python is a parameter. Only requests to `chatbot_view` are in
the runs here; the other views write the session as well, and for them see `Sessions`.
-/

set_option autoImplicit false

namespace MessagesApp.Chatbot

open Py Lib

/-! ## `API_CB` -/

structure Endpoint where
  path : String
  requestKey : String
  responseKeys : List String

/-- The paths and keys of the bots, as in `utils.py`. -/
def CHATBOT_ENDPOINTS : List (String × Endpoint) := [
  ("academico", ⟨"/chatbot-academico/chat", "message", ["reply", "message", "answer"]⟩),
  ("utilidad", ⟨"/chatbot-utilidad/chat", "message", ["reply", "message", "result"]⟩),
  ("wikipedia", ⟨"/chatbot-wikipedia/chat-wikipedia", "message", ["message", "reply"]⟩),
  ("programacion", ⟨"/chatbot-programming/chat", "message", ["reply", "message"]⟩)]

def CHATBOT_OPTIONS : List (String × String) := [
  ("academico", "Chatbot Academico"),
  ("utilidad", "Chatbot Utilidad"),
  ("wikipedia", "Chatbot Wikipedia"),
  ("programacion", "Chatbot Programacion")]

def validChatbots : List String := CHATBOT_OPTIONS.map Prod.fst

/-- `requests.post(url, json={key: text})`. -/
structure GatewayCall where
  url : String
  key : String
  text : String

/-- A response; no `json` where its text is not JSON. -/
structure GatewayResponse where
  contentType : String
  statusCode : Nat
  json : Option Value
  text : String

/-- `response.ok`. -/
def GatewayResponse.ok (r : GatewayResponse) : Bool := !(400 ≤ r.statusCode && r.statusCode < 600)

/-- What the gateways answer: a response, or an exception with its text. They may take any time. -/
abbrev Gateways := GatewayCall → Except String GatewayResponse

/-- What `utils` has from elsewhere: the `str` of a value, and the gateways. -/
structure Utils where
  str : Value → String
  GATEWAY_BASES : List String

/-- `base.rstrip('/')`. -/
def rstripSlash (base : String) : String :=
  String.ofList (base.toList.reverse.dropWhile (· = '/')).reverse

/-- The reply in the data of a response: the first of the keys that has one, the only value of a
`dict`, or the data as they are written. So a reply need not be a text. -/
def replyIn (U : Utils) (keys : List String) : Value → Value
  | .dict d =>
      let found := keys.findSome? fun key => match get d key with
        | .none => none
        | v => some v
      match found, d with
      | some v, _ => v
      | none, [(_, v)] => v
      | none, _ => .str (U.str (.dict d))
  | data => .str (U.str data)

/-- The loop over the gateways, with the errors of those that failed. HTML is an error whatever its
status; the first response that is none and is `ok` gives the reply. -/
def askGateways (U : Utils) (g : Gateways) (config : Endpoint) (texto : String) :
    List String → List String → Value
  | [], errores => .str ("Error al contactar la API (" ++ "; ".intercalate errores ++ ")")
  | base :: bases, errores =>
      let name := if base = "" then "sin_base" else base
      match g ⟨rstripSlash base ++ config.path, config.requestKey, texto⟩ with
      | .error exc => askGateways U g config texto bases (errores ++ [name ++ ": " ++ exc])
      | .ok response =>
          if occursIn "text/html".toList response.contentType.toList then
            askGateways U g config texto bases (errores ++ [name ++ ": respuesta HTML"])
          else if response.ok then
            replyIn U config.responseKeys (response.json.getD (.dict [("raw", .str response.text)]))
          else askGateways U g config texto bases
            (errores ++ [name ++ ": HTTP " ++ toString response.statusCode])

/-- `API_CB`. It never raises: an error is a text that the page shows as a reply. -/
def apiCB (U : Utils) (g : Gateways) (tipo texto : String) : Value :=
  match CHATBOT_ENDPOINTS.lookup tipo with
  | none => .str "No entiendo la solicitud."
  | some config =>
      askGateways U g config texto (if U.GATEWAY_BASES = [] then [""] else U.GATEWAY_BASES) []

/-! ## `chatbot_view` -/

/-- One line of a history: `"bot"` or the name of the user, and what was said. -/
structure Entry where
  sender : String
  text : Value

/-- The keys that the view uses; `chats` has those that begin with `chat_`. -/
structure Session where
  userId : Option String
  user : Option String
  chats : String → Option (List Entry)

/-- `request.session.get(f"chat_{tipo}", [])`. -/
def Session.historial (c : Session) (tipo : String) : List Entry :=
  (c.chats ("chat_" ++ tipo)).getD []

/-- `request.session[f"chat_{tipo}"] = historial`. -/
def Session.withHistorial (c : Session) (tipo : String) (historial : List Entry) : Session :=
  { c with chats := Function.update c.chats ("chat_" ++ tipo) (some historial) }

inductive Method
  | get
  | post (mensaje : Option String) (ajax : Bool)

structure Request where
  tipo : String
  method : Method

inductive Response
  /-- `redirect("home")` -/
  | home
  /-- `redirect("chatsbots")` -/
  | chatsbots
  | json (bot : Value)
  | page (tipo : String) (historial : List Entry) (username : String)

/-- The session to write back, if it was changed, and the answer. -/
structure Outcome where
  save : Option Session
  response : Response

/-- `s.capitalize()`, of ASCII letters. -/
def capitalize (s : String) : String :=
  match s.toList with
  | [] => ""
  | ch :: l => String.ofList (ch.toUpper :: l.map Char.toLower)

/-- `chatbot_view`, on the session that it has read. An unknown bot is sent to the list; a message
that is empty or missing is a GET. -/
def chatbotView (U : Utils) (c : Session) (r : Request) (g : Gateways) : Outcome :=
  match c.userId with
  | none => ⟨none, .home⟩
  | some userId =>
      if userId = "" then ⟨none, .home⟩
      else if r.tipo ∉ validChatbots then ⟨none, .chatsbots⟩
      else
        let historial := c.historial r.tipo
        let userName := c.user.getD "Tú"
        let page historial := Response.page (capitalize r.tipo) historial userName
        match r.method with
        | .get => ⟨none, page historial⟩
        | .post none _ => ⟨none, page historial⟩
        | .post (some userMsg) ajax =>
            if userMsg = "" then ⟨none, page historial⟩
            else
              let respuesta := apiCB U g r.tipo userMsg
              let historial := historial ++ [⟨userName, .str userMsg⟩, ⟨"bot", respuesta⟩]
              ⟨some (c.withHistorial r.tipo historial),
                if ajax then .json respuesta else page historial⟩

/-! ## Exchanges -/

/-- A message to a bot and its reply. -/
structure Exchange where
  tipo : String
  sender : String
  message : String
  reply : Value

def Exchange.entries (x : Exchange) : List Entry := [⟨x.sender, .str x.message⟩, ⟨"bot", x.reply⟩]

/-- The session with one more exchange in it, behind what its history has. -/
def Session.add (c : Session) (x : Exchange) : Session :=
  c.withHistorial x.tipo (c.historial x.tipo ++ x.entries)

def Response.redirects : Response → Bool
  | .home | .chatsbots => true
  | _ => false

/-- The message of a POST, where it has one that is not empty. -/
def Request.message (r : Request) : Option String :=
  match r.method with
  | .post (some userMsg) _ => if userMsg = "" then none else some userMsg
  | _ => none

/-- The exchange of a request: of a POST with a message. One that is redirected has no reply. -/
def exchange (U : Utils) (c : Session) (r : Request) (g : Gateways) : Option Exchange :=
  if (chatbotView U c r g).response.redirects then none
  else r.message.map fun userMsg => ⟨r.tipo, c.user.getD "Tú", userMsg, apiCB U g r.tipo userMsg⟩

variable {U : Utils} {c c₀ : Session} {r : Request} {g : Gateways} {tipo : String}

/-- **The view writes the session back with the exchange, and answers a script with its reply.** All
that the runs need of it. -/
theorem chatbotView_spec : (chatbotView U c r g).save = (exchange U c r g).map c.add ∧
    (∀ x ∈ exchange U c r g, x.tipo ∈ validChatbots) ∧
    ∀ v, (chatbotView U c r g).response = .json v → ∃ x ∈ exchange U c r g, x.reply = v := by
  cases huser : c.userId with
  | none => simp [exchange, chatbotView, huser, Response.redirects]
  | some userId =>
    by_cases hid : userId = ""
    · simp [exchange, chatbotView, huser, hid, Response.redirects]
    by_cases htipo : r.tipo ∈ validChatbots
    · cases hmethod : r.method with
      | get => simp [exchange, chatbotView, huser, hid, htipo, hmethod, Request.message]
      | post mensaje ajax => cases mensaje with
        | none => simp [exchange, chatbotView, huser, hid, htipo, hmethod, Request.message]
        | some userMsg =>
          by_cases hmsg : userMsg = ""
          · simp [exchange, chatbotView, huser, hid, htipo, hmethod, hmsg, Request.message]
          · cases ajax <;> simp [exchange, chatbotView, huser, hid, htipo, hmethod, hmsg,
              Request.message, Response.redirects, Session.add, Exchange.entries]
    · simp [exchange, chatbotView, huser, hid, htipo, Response.redirects]

/-! ## Requests of one session -/

/-- The session in the database, and what the requests under way have read of it. -/
structure State where
  session : Session
  loaded : Nat → Option (Request × Session)

def State.init (c : Session) : State := ⟨c, fun _ => none⟩

inductive Event
  /-- A request comes, and the view reads the session. -/
  | load (i : Nat) (r : Request)
  /-- The gateways have answered, the session is written back and the request is answered. -/
  | answer (i : Nat) (g : Gateways)

/-- One step: a request reads the session, or writes the one it has read back and is answered. -/
def step (U : Utils) (s : State) : Event → Option State
  | .load i r => if (s.loaded i).isNone then
      some { s with loaded := Function.update s.loaded i (some (r, s.session)) } else none
  | .answer i g => (s.loaded i).map fun (r, c) =>
      ⟨(chatbotView U c r g).save.getD s.session, Function.update s.loaded i none⟩

abbrev Step := Transition State Event

/-- The exchange of the request that a step answers. -/
def exchangeOf (U : Utils) (t : Step) : Option Exchange :=
  match t.event with
  | .load .. => none
  | .answer i g => (t.pre.loaded i).bind fun (r, c) => exchange U c r g

def exchanges (U : Utils) (tr : List Step) : List Exchange := tr.filterMap (exchangeOf U)

/-- **No exchange is lost**: the history of each bot has, behind the entries it had, the entries of
each of its exchanges once, a message and its reply together. In some order: two that overlap are
not ordered by their messages. -/
def Kept (U : Utils) (c₀ : Session) (tr : List Step) (s : State) : Prop :=
  ∀ tipo, ∃ l : List Exchange, l.Perm ((exchanges U tr).filter fun x => x.tipo = tipo) ∧
    s.session.historial tipo = c₀.historial tipo ++ l.flatMap Exchange.entries

/-- An exchange is written behind the session that its request has read: the stored one is still the
same. -/
def Fresh (U : Utils) (t : Step) : Prop :=
  ∀ i g r c, t.event = .answer i g → t.pre.loaded i = some (r, c) →
    (exchange U c r g).isSome → c = t.pre.session

/-! ## As write backs -/

def State.plain (s : State) : WriteBack.State Session Nat :=
  ⟨s.session, fun i => (s.loaded i).map Prod.snd⟩

def plainEvent (U : Utils) (t : Step) : WriteBack.Event Nat Exchange :=
  match t.event with
  | .load i _ => .load i
  | .answer i _ => match exchangeOf U t with
      | some x => .save i x
      | none => .leave i

def plain (U : Utils) (t : Step) : WriteBack.Made Session Nat Exchange :=
  ⟨t.pre.plain, plainEvent U t, t.post.plain⟩

variable {s s' : State} {e : Event} {tr : List Step}

theorem plain_update (s : State) (c : Session) (i : Nat) (x : Option (Request × Session)) :
    (⟨c, Function.update s.loaded i x⟩ : State).plain =
      ⟨c, Function.update s.plain.copies i (x.map Prod.snd)⟩ := by
  unfold State.plain
  congr 1
  funext j
  by_cases hij : j = i
  · subst hij
    simp
  · simp [hij]

/-- **A step of the requests is a step of write backs**, of an exchange or of none. -/
theorem plain_step (h : step U s e = some s') :
    WriteBack.step Session.add s.plain (plainEvent U ⟨s, e, s'⟩) = some s'.plain := by
  cases e with
  | load i r =>
    simp only [step] at h
    split at h
    · rename_i hnone
      cases h
      have hcopy : s.plain.copies i = none := by simpa [State.plain] using hnone
      rw [plain_update]
      exact WriteBack.step_load hcopy
    · cases h
  | answer i g =>
    obtain ⟨⟨r, c⟩, hloaded, rfl⟩ := Option.map_eq_some_iff.mp h
    have hcopy : s.plain.copies i = some c := by simp [State.plain, hloaded]
    have hx : ∀ s', exchangeOf U ⟨s, .answer i g, s'⟩ = exchange U c r g := by
      simp [exchangeOf, hloaded]
    simp only [plainEvent, hx]
    rw [plain_update, chatbotView_spec.1]
    cases exchange U c r g with
    | none => exact WriteBack.step_leave hcopy
    | some x => exact WriteBack.step_save hcopy

theorem plain_run (h : Run (step U) (State.init c₀) tr s) :
    Run (WriteBack.step Session.add) (WriteBack.State.init c₀) (tr.map (plain U)) s.plain := by
  induction h with
  | nil => exact .nil
  | @snoc tr m s e _ he ih =>
    rw [List.map_append]
    exact ih.snoc (plain_step he)

theorem saved_plain (U : Utils) (tr : List Step) :
    WriteBack.saved (tr.map (plain U)) = exchanges U tr := by
  unfold WriteBack.saved exchanges
  rw [List.filterMap_map]
  refine List.filterMap_congr fun t _ => ?_
  obtain ⟨s, e, s'⟩ := t
  cases e with
  | load i r => rfl
  | answer i g =>
    simp only [Function.comp, plain, plainEvent]
    cases exchangeOf U ⟨s, .answer i g, s'⟩ <;> rfl

theorem plainEvent_eq_save {t : Step} {i : Nat} {x : Exchange} :
    plainEvent U t = .save i x ↔ ∃ g r c, t.event = .answer i g ∧ t.pre.loaded i = some (r, c) ∧
      exchange U c r g = some x := by
  obtain ⟨s, e, s'⟩ := t
  cases e with
  | load j r => exact iff_of_false (by simp [plainEvent]) (by simp)
  | answer j g =>
    simp only [plainEvent]
    constructor
    · intro h
      split at h
      · rename_i y hy
        cases h
        obtain ⟨⟨r, c⟩, hloaded, hx⟩ := Option.bind_eq_some_iff.mp hy
        exact ⟨g, r, c, rfl, hloaded, hx⟩
      · cases h
    · rintro ⟨g', r, c, he, hloaded, hx⟩
      cases he
      have hof : exchangeOf U ⟨s, .answer i g, s'⟩ = some x := by simp [exchangeOf, hloaded, hx]
      rw [hof]

theorem fresh_plain {t : Step} : WriteBack.Fresh (plain U t) ↔ Fresh U t := by
  constructor
  · intro h i g r c he hloaded hx
    obtain ⟨x, hx⟩ := Option.isSome_iff_exists.mp hx
    have hcopy : (t.pre.loaded i).map Prod.snd = some t.pre.session :=
      h i x (plainEvent_eq_save.mpr ⟨g, r, c, he, hloaded, hx⟩)
    rw [hloaded] at hcopy
    exact Option.some.inj hcopy
  · intro h i x hev
    obtain ⟨g, r, c, he, hloaded, hx⟩ := plainEvent_eq_save.mp hev
    show (t.pre.loaded i).map Prod.snd = some t.pre.session
    rw [hloaded, ← h i g r c he hloaded (by simp [hx])]
    rfl

/-! ## Histories -/

theorem historial_add (c : Session) (x : Exchange) (tipo : String) : (c.add x).historial tipo =
    c.historial tipo ++ if x.tipo = tipo then x.entries else [] := by
  unfold Session.add Session.withHistorial
  by_cases htipo : x.tipo = tipo
  · subst htipo
    simp [Session.historial]
  · have hkey : "chat_" ++ tipo ≠ "chat_" ++ x.tipo := by
      intro h
      exact htipo (String.append_right_inj _ |>.mp h).symm
    simp [Session.historial, htipo, hkey]

theorem historial_foldl (l : List Exchange) (c : Session) (tipo : String) :
    (l.foldl Session.add c).historial tipo =
      c.historial tipo ++ (l.filter fun x => x.tipo = tipo).flatMap Exchange.entries := by
  induction l generalizing c with
  | nil => simp
  | cons x l ih =>
    rw [List.foldl_cons, ih, historial_add, List.append_assoc, List.filter_cons]
    by_cases htipo : x.tipo = tipo
    · simp [htipo]
    · simp [htipo]

/-- The entries of all the bots. Each exchange adds two, so that a history that lost one is
short. -/
def weight (c : Session) : Nat := (validChatbots.map fun tipo => (c.historial tipo).length).sum

theorem adds {x : Exchange} (h : x.tipo ∈ validChatbots) :
    WriteBack.Adds Session.add weight (fun _ => 2) x := by
  refine ⟨Nat.zero_lt_two, fun c => ?_⟩
  have hlen : ∀ tipo, ((c.add x).historial tipo).length =
      (c.historial tipo).length + if x.tipo = tipo then 2 else 0 := by
    intro tipo
    rw [historial_add, List.length_append]
    split <;> rfl
  have hone : ∀ bot ∈ validChatbots,
      (validChatbots.map fun tipo => if bot = tipo then 2 else 0).sum = 2 := by decide
  unfold weight
  simp only [hlen, List.sum_map_add, hone _ h]

theorem entries_length (l : List Exchange) : (l.flatMap Exchange.entries).length = 2 * l.length := by
  induction l with
  | nil => rfl
  | cons x l ih =>
    rw [List.flatMap_cons, List.length_append, ih, List.length_cons]
    simp only [Exchange.entries, List.length_cons, List.length_nil]
    omega

/-- A session whose histories are as long as after all the exchanges has their weight. -/
theorem weight_congr {c' : Session}
    (h : ∀ tipo, (c.historial tipo).length = (c'.historial tipo).length) : weight c = weight c' := by
  unfold weight
  rw [List.map_congr_left fun tipo _ => h tipo]

theorem weight_foldl {l : List Exchange} (hl : ∀ x ∈ l, x.tipo ∈ validChatbots) (c : Session) :
    weight (l.foldl Session.add c) = weight c + (l.map fun _ => 2).sum := by
  induction l generalizing c with
  | nil => rfl
  | cons x l ih =>
    rw [List.foldl_cons, ih (fun y hy => hl y (List.mem_cons_of_mem _ hy)),
      (adds (hl x List.mem_cons_self)).2, List.map_cons, List.sum_cons, Nat.add_assoc]

theorem exchanges_valid {x : Exchange} (h : x ∈ exchanges U tr) : x.tipo ∈ validChatbots := by
  obtain ⟨t, -, hx⟩ := List.mem_filterMap.mp h
  unfold exchangeOf at hx
  split at hx
  · cases hx
  · obtain ⟨⟨r, c⟩, -, hx⟩ := Option.bind_eq_some_iff.mp hx
    exact chatbotView_spec.2.1 x hx

/-- **No exchange is lost exactly in the runs whose write backs all find the session that their
request has read.** For every interleaving and every answer of the gateways. Towards the condition:
the sum of the lengths of the histories is too small if one write back was not fresh. -/
theorem kept_iff (h : Run (step U) (State.init c₀) tr s) :
    Kept U c₀ tr s ↔ ∀ t ∈ tr, Fresh U t := by
  have hrun := plain_run h
  have hfresh : (∀ t ∈ tr.map (plain U), WriteBack.Fresh t) ↔ ∀ t ∈ tr, Fresh U t := by
    rw [List.forall_mem_map]
    exact forall₂_congr fun t _ => fresh_plain
  rw [← hfresh]
  constructor
  · intro hkept
    rw [← WriteBack.weight_eq_iff weight (fun _ => 2) hrun fun x hx => adds ?_]
    · have hlen : ∀ tipo, (s.session.historial tipo).length =
          (((exchanges U tr).foldl Session.add c₀).historial tipo).length := by
        intro tipo
        obtain ⟨l, hperm, hl⟩ := hkept tipo
        rw [hl, historial_foldl, List.length_append, List.length_append, entries_length,
          entries_length, hperm.length_eq]
      show weight s.session = _
      rw [weight_congr hlen, weight_foldl (fun x hx => exchanges_valid hx), WriteBack.full,
        saved_plain]
    · rw [saved_plain] at hx
      exact exchanges_valid hx
  · intro hall tipo
    have hstore : s.session = (exchanges U tr).foldl Session.add c₀ := by
      rw [← saved_plain]
      exact WriteBack.store_of_fresh hrun hall
    exact ⟨_, .refl _, by rw [hstore, historial_foldl]⟩

/-- Someone who has logged in and asked nothing yet. -/
def visitor : Session := ⟨some "1", some "ana", fun _ => none⟩

def sampleUtils : Utils := ⟨Value.toStr, ["https://gateway"]⟩

def post (mensaje : String) : Request := ⟨"academico", .post (some mensaje) true⟩

def replies (reply : String) : Gateways := fun _ =>
  .ok ⟨"application/json", 200, some (.dict [("reply", .str reply)]), ""⟩

/-- A second message behind the reply to the first. -/
def inTurn : List Event :=
  [.load 0 (post "hola"), .answer 0 (replies "¡Hola!"), .load 1 (post "adios"),
    .answer 1 (replies "¡Adios!")]

/-- A second message before it. -/
def overlapping : List Event :=
  [.load 0 (post "hola"), .load 1 (post "adios"), .answer 0 (replies "¡Hola!"),
    .answer 1 (replies "¡Adios!")]

theorem fresh_load (s s' : State) (i : Nat) (r : Request) : Fresh U ⟨s, .load i r, s'⟩ :=
  fun _ _ _ _ h => by cases h

theorem kept_in_turn : ∃ s,
    Run (step sampleUtils) (State.init visitor)
      (trace (step sampleUtils) (State.init visitor) inTurn) s ∧
    Kept sampleUtils visitor (trace (step sampleUtils) (State.init visitor) inTurn) s := by
  have hexec : exec (step sampleUtils) (State.init visitor) inTurn = some _ := rfl
  refine ⟨_, (Run.of_exec hexec).2, (kept_iff (Run.of_exec hexec).2).mpr ?_⟩
  change ∀ t ∈ [_, _, _, _], _
  refine List.forall_mem_cons.mpr ⟨fresh_load _ _ _ _, List.forall_mem_cons.mpr ⟨?_,
    List.forall_mem_cons.mpr ⟨fresh_load _ _ _ _, List.forall_mem_singleton.mpr ?_⟩⟩⟩
  · intro i g r c he hl _
    cases he
    exact (congrArg Prod.snd (Option.some.inj hl)).symm
  · intro i g r c he hl _
    cases he
    exact (congrArg Prod.snd (Option.some.inj hl)).symm

/-- Both are answered, and only the second is in the history. -/
theorem overlapping_loses : ∃ s,
    Run (step sampleUtils) (State.init visitor)
      (trace (step sampleUtils) (State.init visitor) overlapping) s ∧
    (∀ i, s.loaded i = none) ∧
    ¬ Kept sampleUtils visitor (trace (step sampleUtils) (State.init visitor) overlapping) s := by
  have hexec : exec (step sampleUtils) (State.init visitor) overlapping = some _ := rfl
  refine ⟨_, (Run.of_exec hexec).2, fun i => ?_, fun hkept => ?_⟩
  · match i with
    | 0 => rfl
    | 1 => rfl
    | n + 2 => rfl
  · obtain ⟨l, hperm, hl⟩ := hkept "academico"
    have hlen : l.length = 2 := hperm.length_eq
    have hkeptlen := congrArg List.length hl
    rw [List.length_append, entries_length, hlen] at hkeptlen
    cases hkeptlen

end MessagesApp.Chatbot
