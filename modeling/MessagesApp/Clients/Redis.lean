import MessagesApp.Py.Text

/-!
# `clients/redis.py`

Whether the cache is on, and the one client of the process. `get_client` (51–71) reads its settings
when it makes the client, with `int` and `float` outside any `try`, so a setting that is no number
is an exception of whoever asks for the client: the cache's commands, which ask for it outside
their own `try` too, and the fallback of `SendEvent`.

`cache_enabled` keeps its first answer in a global, and the client once made is kept. So whether
asking raises can change from one call to the next, and `getClient` carries the two globals along.
`getClient_error_iff` says when it raises, and `getClient_again` that a second call raises exactly
where the first did: one that raises leaves nothing behind but `_enabled`.

The client has the cache's flag: with `CACHE_ENABLED` off there is none, for whatever purpose
(51–53), which is why the outbox goes with the cache.

What the client does when it is used is no part of this module; `from_url` is a parameter, as the
`redis` package is. The environment is read at each call and does not change.
-/

set_option autoImplicit false

namespace MessagesApp.Clients

open Py

/-! ## Settings -/

/-- `os.environ`. -/
abbrev Environ := String → Option String

/-- `os.getenv(name, default)`. -/
def getenv (env : Environ) (name default : String) : String := (env name).getD default

/-- `os.getenv(name, default).lower() in {"1", "true", "yes"}`. The empty text is not the default,
and is off. -/
def flag (env : Environ) (name default : String) : Bool :=
  ["1".toList, "true".toList, "yes".toList].contains (lower (getenv env name default).toList)

/-- `bool(os.getenv(name))`. -/
def given (env : Environ) (name : String) : Bool :=
  match env name with
  | some v => v ≠ ""
  | none => false

/-- The texts of Python's own exceptions, each by the text it is about. No result depends on what
they say, but an answer carries them. -/
structure ErrorTexts where
  uuid : String → String
  int : String → String
  float : String → String
  duplicateKey : String

/-- `int(os.getenv(name, default))`. -/
def intSetting (T : ErrorTexts) (env : Environ) (name default : String) : Except String Int :=
  match Py.int (getenv env name default).toList with
  | some n => .ok n
  | none => .error (T.int (getenv env name default))

/-- `float(os.getenv(name, default))`, by its text. -/
def floatSetting (T : ErrorTexts) (env : Environ) (name default : String) : Except String String :=
  if floatOk (getenv env name default).toList then .ok (getenv env name default)
  else .error (T.float (getenv env name default))

/-! ## The client -/

/-- The `redis` package: whether it was found, and with what text `from_url` raises on a URL, if it
does. -/
structure RedisLib where
  installed : Bool
  fromUrl : String → Option String

/-- `_enabled` and whether there is a `_client`. -/
structure Globals where
  enabled : Option Bool
  client : Bool
deriving DecidableEq

/-- `cache_enabled`: the flag, the package, and a host or a URL. The first answer is kept, and later
ones do not look at the environment again. -/
def cacheEnabled (env : Environ) (lib : RedisLib) (g : Globals) : Bool × Globals :=
  match g.enabled with
  | some b => (b, g)
  | none =>
      let b := lib.installed && flag env "CACHE_ENABLED" "true" &&
        (given env "REDIS_URL" || given env "REDIS_HOST")
      (b, { g with enabled := some b })

/-- `_build_url`. -/
def buildUrl (T : ErrorTexts) (env : Environ) : Except String (Option String) :=
  if given env "REDIS_URL" then .ok (env "REDIS_URL")
  else if given env "REDIS_HOST" then do
    let host := getenv env "REDIS_HOST" ""
    let port ← intSetting T env "REDIS_PORT" "6379"
    let db ← intSetting T env "REDIS_DB" "0"
    if given env "REDIS_PASSWORD" then
      .ok (some ("redis://:" ++ getenv env "REDIS_PASSWORD" "" ++ "@" ++ host ++ ":" ++
        toString port ++ "/" ++ toString db))
    else .ok (some ("redis://" ++ host ++ ":" ++ toString port ++ "/" ++ toString db))
  else .ok none

/-- The client that `get_client` makes; `false` where it has no URL to make one from. The settings
are read in the order of the source, so that the first bad one gives the exception. -/
def makeClient (T : ErrorTexts) (env : Environ) (lib : RedisLib) : Except String Bool := do
  match ← buildUrl T env with
  | none => .ok false
  | some url =>
      if url = "" then .ok false
      else
        let _ ← floatSetting T env "REDIS_CONNECT_TIMEOUT" "0.2"
        let _ ← floatSetting T env "REDIS_SOCKET_TIMEOUT" "0.5"
        match lib.fromUrl url with
        | some e => .error e
        | none => .ok true

/-- `get_client`: whether there is one. It raises where a client has to be made and a setting is no
number, or the URL is none. -/
def getClient (T : ErrorTexts) (env : Environ) (lib : RedisLib) (g : Globals) :
    Except String Bool × Globals :=
  let (enabled, g) := cacheEnabled env lib g
  if !enabled then (.ok false, g)
  else if g.client then (.ok true, g)
  else match makeClient T env lib with
    | .ok made => (.ok made, { g with client := made })
    | .error e => (.error e, g)

/-! ## When asking for it raises -/

/-- The settings make a client, or say that there is none. -/
def ClientConfigured (T : ErrorTexts) (env : Environ) (lib : RedisLib) : Prop :=
  ∃ made, makeClient T env lib = .ok made

theorem cacheEnabled_again (env : Environ) (lib : RedisLib) (g : Globals) :
    cacheEnabled env lib (cacheEnabled env lib g).2 = cacheEnabled env lib g := by
  cases h : g.enabled with
  | none => simp [cacheEnabled, h]
  | some b => simp [cacheEnabled, h]

theorem cacheEnabled_client (env : Environ) (lib : RedisLib) (g : Globals) :
    (cacheEnabled env lib g).2.client = g.client := by
  cases h : g.enabled with
  | none => simp [cacheEnabled, h]
  | some b => simp [cacheEnabled, h]

/-- **Asking for the client raises where the cache is on, there is no client yet, and the settings
make none.** Nothing else in it can raise. -/
theorem getClient_error_iff {T : ErrorTexts} {env : Environ} {lib : RedisLib} {g : Globals} :
    (∃ e, (getClient T env lib g).1 = .error e) ↔
      (cacheEnabled env lib g).1 = true ∧ g.client = false ∧ ¬ ClientConfigured T env lib := by
  have hclient := cacheEnabled_client env lib g
  unfold getClient ClientConfigured
  generalize cacheEnabled env lib g = q at hclient
  obtain ⟨enabled, g'⟩ := q
  simp only at hclient
  cases enabled with
  | false => simp
  | true =>
    cases hc : g.client with
    | true => simp [hclient, hc]
    | false =>
      cases hm : makeClient T env lib with
      | ok made => simp [hclient, hc]
      | error e => simp [hclient, hc]

/-- A call that raises leaves the globals as `cache_enabled` leaves them. -/
theorem getClient_globals (T : ErrorTexts) (env : Environ) (lib : RedisLib) (g : Globals) :
    (getClient T env lib g).2 = (cacheEnabled env lib g).2 ∨
      ∃ made, makeClient T env lib = .ok made ∧
        (getClient T env lib g).2 = { (cacheEnabled env lib g).2 with client := made } := by
  unfold getClient
  generalize cacheEnabled env lib g = q
  obtain ⟨enabled, g'⟩ := q
  simp only
  split
  · exact Or.inl rfl
  · split
    · exact Or.inl rfl
    · cases hm : makeClient T env lib with
      | ok made => exact Or.inr ⟨made, rfl, rfl⟩
      | error e => exact Or.inl rfl

/-- **It raises the second time exactly where it raised the first.** What the first call may leave
is `_enabled`, which the second would have computed alike, and a client, which it then has. -/
theorem getClient_again {T : ErrorTexts} {env : Environ} {lib : RedisLib} {g : Globals} :
    (∃ e, (getClient T env lib (getClient T env lib g).2).1 = .error e) ↔
      ∃ e, (getClient T env lib g).1 = .error e := by
  rw [getClient_error_iff, getClient_error_iff]
  have hclient := cacheEnabled_client env lib g
  have hagain := cacheEnabled_again env lib g
  rcases getClient_globals T env lib g with hg | ⟨made, hm, hg⟩
  · rw [hg, hagain, hclient]
  · have hconf : ClientConfigured T env lib := ⟨made, hm⟩
    constructor
    · intro h
      exact absurd hconf h.2.2
    · intro h
      exact absurd hconf h.2.2

end MessagesApp.Clients
