import Mathlib.Data.List.TakeWhile
import Savr.Core.Types
import Savr.Lib.Router

/-!
# Client URLs and server routes

The URLs that `savr-daemon/src/client.rs` and `ws.rs` put together, and the route table of
`build_app` in `savr-server/src/api.rs`.

`axum` and the URL parser of the HTTP clients are no part of the repository.  What the table
relies on is that a path is matched segment by segment, with literals preferred, and what the
clients rely on, that a URL has the path that they put behind its authority.

## Main results

* `client_routed_iff` — the operations whose URL reaches their handler.
-/

namespace Savr

open Router

/-! ### The server -/

/-- The methods that the routes tell apart. -/
inductive Method
  | get
  | head
  | post
  | put
  | delete
  deriving DecidableEq, Repr

/-- The handlers of `api.rs`, by the names of their functions. -/
inductive Handler
  | healthz
  | readyz
  | login
  | refresh
  | createPairCode
  | pair
  | listDevices
  | deleteDevice
  | ensureGame
  | createVersion
  | listVersions
  | getHead
  | resolve
  | getConfig
  | putConfig
  | blobHead
  | blobPut
  | blobGet
  | wsUpgrade
  deriving DecidableEq, Repr

/-- The routes of `build_app`, in this order. A parameter stands for one segment, and a path
has the handlers of its methods. -/
def buildApp : List (String × List (Method × Handler)) :=
  [("/healthz", [(.get, .healthz)]),
   ("/readyz", [(.get, .readyz)]),
   ("/api/v1/auth/login", [(.post, .login)]),
   ("/api/v1/auth/refresh", [(.post, .refresh)]),
   ("/api/v1/devices/pair-code", [(.post, .createPairCode)]),
   ("/api/v1/devices/pair", [(.post, .pair)]),
   ("/api/v1/devices", [(.get, .listDevices)]),
   ("/api/v1/devices/{id}", [(.delete, .deleteDevice)]),
   ("/api/v1/games", [(.post, .ensureGame)]),
   ("/api/v1/games/{id}/versions", [(.post, .createVersion), (.get, .listVersions)]),
   ("/api/v1/games/{id}/head", [(.get, .getHead)]),
   ("/api/v1/games/{id}/resolve", [(.post, .resolve)]),
   ("/api/v1/config", [(.get, .getConfig), (.put, .putConfig)]),
   ("/api/v1/blobs/{hash}", [(.head, .blobHead), (.put, .blobPut), (.get, .blobGet)]),
   ("/api/v1/ws", [(.get, .wsUpgrade)])]

/-- The table, by segments. -/
def appRoutes : List (List Segment × List (Method × Handler)) :=
  buildApp.map fun r => (pattern r.1, r.2)

/-- The handler for a method; a `HEAD` without one of its own is served by that of `GET`. -/
def methodHandler (handlers : List (Method × Handler)) (method : Method) : Option Handler :=
  (handlers.lookup method).or (if method = .head then handlers.lookup .get else none)

/-- The handler a request reaches, if any. -/
def routeRequest (axum : Matcher (List (Method × Handler))) (method : Method) (path : String) :
    Option Handler :=
  (axum.route appRoutes (segments path)).bind fun handlers => methodHandler handlers method

/-- No pattern of the table is listed twice, so every matcher finds the same. -/
theorem route_appRoutes (axum : Matcher (List (Method × Handler))) (path : List String) :
    axum.route appRoutes path = lookup path appRoutes :=
  axum.route_eq_lookup (by decide +kernel) path

/-! ### The client -/

/-- The characters that end the authority or the path of a URL. -/
def endsAuthority (c : Char) : Bool :=
  c = '/' || c = '?' || c = '#'

/-- The path of a URL ends before such a character. -/
def endsPath (c : Char) : Bool :=
  c = '?' || c = '#'

/-- The path of a URL: what follows the authority, up to a query or a fragment. -/
def urlPath (url : String) : String :=
  let afterScheme := (url.toList.dropWhile (· ≠ ':')).drop 3
  String.ofList ((afterScheme.dropWhile (!endsAuthority ·)).takeWhile (!endsPath ·))

/-- A character that a segment of a path may have, and that no parser changes. -/
def segmentChar (c : Char) : Bool :=
  c.isAlphanum || c = '-'

/-- The character stands for itself in a path. -/
def pathChar (c : Char) : Bool :=
  c = '/' || segmentChar c

/-- What the clients use of the URL parser: a path of plain segments is read back.  A text that it
refuses makes no request, and its path counts as the one that was put there. -/
structure UrlCrate where
  path : String → String
  path_append : ∀ {scheme authority suffix : String}, ':' ∉ scheme.toList →
    (∀ c ∈ authority.toList, endsAuthority c = false) → (∃ rest, suffix.toList = '/' :: rest) →
    (∀ c ∈ suffix.toList, pathChar c = true) →
    path (scheme ++ "://" ++ authority ++ suffix) = suffix

/-- A configured server URL: `scheme://authority` with any number of slashes after it. -/
structure ServerUrl where
  scheme : String
  authority : String
  slashes : ℕ
  scheme_plain : ':' ∉ scheme.toList
  authority_ne : authority ≠ ""
  authority_plain : ∀ c ∈ authority.toList, endsAuthority c = false

/-- The URL as the user enters it. -/
def ServerUrl.text (server : ServerUrl) : String :=
  server.scheme ++ "://" ++ server.authority ++
    String.ofList (List.replicate server.slashes '/')

/-- `trim_end_matches('/')`. -/
def trimEndSlashes (text : String) : String :=
  String.ofList (text.toList.reverse.dropWhile (· = '/')).reverse

/-- `ServerClient::new`. -/
def clientBase (serverUrl : String) : String :=
  trimEndSlashes serverUrl ++ "/api/v1"

/-- `str::strip_prefix`. -/
def stripPrefix (pre text : String) : Option String :=
  if pre.toList <+: text.toList then some (String.ofList (text.toList.drop pre.toList.length))
  else none

/-- Map the REST base URL to the WebSocket endpoint: the scheme is swapped, and the path of
the API is not put in front. -/
def wsUrl (serverUrl : String) : String :=
  let base := trimEndSlashes serverUrl
  let swapped :=
    match stripPrefix "https://" base with
    | some rest => "wss://" ++ rest
    | none =>
        match stripPrefix "http://" base with
        | some rest => "ws://" ++ rest
        | none => base
  swapped ++ "/ws"

/-- A hash as it is on the wire: 32 bytes. -/
structure WireHash where
  hash : Blake3Hash
  size : hash.digest.length = 32
  bytes : ∀ b ∈ hash.digest, b < 256

/-- `Blake3Hash::to_hex`. -/
def WireHash.toHex (h : WireHash) : String :=
  String.ofList (h.hash.digest.flatMap fun b => (hexPadded 2 b).toList)

/-- The requests of the daemon: those of `ServerClient`, and the upgrade that `ws.rs` asks for. -/
inductive ClientOp
  | pair
  | refresh
  | ensureGame
  | getHead (gameId : GameId)
  | listVersions (gameId : GameId)
  | createVersion (gameId : GameId)
  | resolveConflict (gameId : GameId)
  | getConfig
  | putConfig
  | blobExists (hash : WireHash)
  | blobPutFile (hash : WireHash)
  | blobGetToFile (hash : WireHash)
  /-- The upgrade request of the WebSocket client. -/
  | webSocket

namespace ClientOp

/-- The URL that the client puts together, from the base with the path of the API, but for
the WebSocket. -/
def url (serverUrl : String) : ClientOp → String
  | pair => clientBase serverUrl ++ "/devices/pair"
  | refresh => clientBase serverUrl ++ "/auth/refresh"
  | ensureGame => clientBase serverUrl ++ "/games"
  | getHead gameId => clientBase serverUrl ++ "/games/" ++ Uuid.text gameId ++ "/head"
  | listVersions gameId | createVersion gameId =>
      clientBase serverUrl ++ "/games/" ++ Uuid.text gameId ++ "/versions"
  | resolveConflict gameId => clientBase serverUrl ++ "/games/" ++ Uuid.text gameId ++ "/resolve"
  | getConfig | putConfig => clientBase serverUrl ++ "/config"
  | blobExists hash | blobPutFile hash | blobGetToFile hash =>
      clientBase serverUrl ++ "/blobs/" ++ hash.toHex
  | webSocket => wsUrl serverUrl

/-- The method of the request. -/
def method : ClientOp → Method
  | pair | refresh | ensureGame | createVersion _ | resolveConflict _ => .post
  | getHead _ | listVersions _ | getConfig | blobGetToFile _ | webSocket => .get
  | putConfig | blobPutFile _ => .put
  | blobExists _ => .head

/-- The handler that is meant: the one that does what the caller of the request is after. -/
def handler : ClientOp → Handler
  | pair => .pair
  | refresh => .refresh
  | ensureGame => .ensureGame
  | getHead _ => .getHead
  | listVersions _ => .listVersions
  | createVersion _ => .createVersion
  | resolveConflict _ => .resolve
  | getConfig => .getConfig
  | putConfig => .putConfig
  | blobExists _ => .blobHead
  | blobPutFile _ => .blobPut
  | blobGetToFile _ => .blobGet
  | webSocket => .wsUpgrade

end ClientOp

/-! ### Ids and hashes in a path -/

/-- A text that stays one segment of a path. -/
structure PlainSegment (text : String) : Prop where
  ne : text ≠ ""
  plain : ∀ c ∈ text.toList, segmentChar c = true

/-- How closed texts are checked. -/
theorem none_of_any {p : Char → Bool} {text : String} (h : text.toList.any p = false) :
    ∀ c ∈ text.toList, p c = false := by
  intro c hc
  simpa using List.any_eq_false.mp h c hc

theorem all_of_all {p : Char → Bool} {text : String} (h : text.toList.all p = true) :
    ∀ c ∈ text.toList, p c = true :=
  List.all_eq_true.mp h

theorem segmentChars_of_all {segs : List String}
    (h : (segs.all fun s => s.toList.all segmentChar) = true) :
    ∀ s ∈ segs, ∀ c ∈ s.toList, segmentChar c = true :=
  fun s hs => List.all_eq_true.mp (List.all_eq_true.mp h s hs)

theorem digitChar_plain {d : ℕ} (hd : d < 16) : segmentChar d.digitChar = true := by
  interval_cases d <;> decide

theorem hexPadded_plain (width n : ℕ) : PlainSegment (hexPadded width n) :=
  ⟨hexPadded_ne_empty width n, forall_mem_hexPadded (fun _ => digitChar_plain) width n⟩

theorem uuid_plain (u : Uuid) : PlainSegment (Uuid.text u) :=
  ⟨Uuid.text_ne_empty u, Uuid.forall_mem_text (fun _ => digitChar_plain) (by decide) u⟩

/-- The hex digits of a hash are a plain segment: the URL parser leaves them as they are. -/
theorem WireHash.plain (h : WireHash) : PlainSegment h.toHex := by
  have hlist : h.toHex.toList = h.hash.digest.flatMap fun b => (hexPadded 2 b).toList := by
    simp [WireHash.toHex]
  constructor
  · intro hempty
    rw [hempty] at hlist
    cases hdigest : h.hash.digest with
    | nil =>
        have hsize := h.size
        rw [hdigest] at hsize
        cases hsize
    | cons b bs =>
        rw [hdigest, List.flatMap_cons] at hlist
        have hfirst : (hexPadded 2 b).toList = [] := (List.append_eq_nil_iff.mp hlist.symm).1
        exact (hexPadded_plain 2 b).ne (String.toList_inj.mp hfirst)
  · intro c hc
    rw [hlist] at hc
    obtain ⟨b, -, hcb⟩ := List.mem_flatMap.mp hc
    exact (hexPadded_plain 2 b).plain c hcb

/-! ### The path of a URL -/

section Path

variable {server : ServerUrl}

/-- The slashes at the end are dropped, and nothing else. -/
theorem trimEndSlashes_text (server : ServerUrl) :
    trimEndSlashes server.text = server.scheme ++ "://" ++ server.authority := by
  have hdrop : ∀ (n : ℕ) (l : List Char),
      (List.replicate n '/' ++ l).dropWhile (· = '/') = l.dropWhile (· = '/') := by
    intro n l
    refine List.dropWhile_append_of_pos fun c hc => ?_
    simpa using (List.mem_replicate.mp hc).2
  -- the authority is not empty, and does not end with a slash
  have hkeep : (server.scheme ++ "://" ++ server.authority).toList.reverse.dropWhile (· = '/') =
      (server.scheme ++ "://" ++ server.authority).toList.reverse := by
    rw [String.toList_append, List.reverse_append]
    cases hlast : server.authority.toList.reverse with
    | nil =>
        exact absurd (String.toList_inj.mp (List.reverse_eq_nil_iff.mp hlast)) server.authority_ne
    | cons c cs =>
        have hmem : c ∈ server.authority.toList := by
          rw [← List.mem_reverse, hlast]
          exact List.mem_cons_self
        have hc : c ≠ '/' := by
          rintro rfl
          exact absurd (server.authority_plain _ hmem) (by decide)
        simp [hc]
  rw [trimEndSlashes, ServerUrl.text, String.toList_append, String.toList_ofList,
    List.reverse_append, List.reverse_replicate, hdrop, hkeep, List.reverse_reverse,
    String.ofList_toList]

/-- A scheme ends at the first colon. -/
theorem dropWhile_scheme {scheme : List Char} (hscheme : ':' ∉ scheme) (rest : List Char) :
    (scheme ++ ':' :: rest).dropWhile (· ≠ ':') = ':' :: rest := by
  rw [List.dropWhile_append_of_pos]
  · rfl
  · intro c hc
    have hne : c ≠ ':' := fun h => hscheme (h ▸ hc)
    simpa using hne

/-- What follows the authority is the path. -/
theorem urlPath_append {scheme authority path : String} (hscheme : ':' ∉ scheme.toList)
    (hauth : ∀ c ∈ authority.toList, endsAuthority c = false)
    (hslash : ∃ rest, path.toList = '/' :: rest)
    (hpath : ∀ c ∈ path.toList, endsPath c = false) :
    urlPath (scheme ++ "://" ++ authority ++ path) = path := by
  have hafter : ((scheme ++ "://" ++ authority ++ path).toList.dropWhile (· ≠ ':')).drop 3 =
      authority.toList ++ path.toList := by
    have hlist : (scheme ++ "://" ++ authority ++ path).toList =
        scheme.toList ++ (':' :: '/' :: '/' :: (authority.toList ++ path.toList)) := by
      simp
    rw [hlist, dropWhile_scheme hscheme]
    rfl
  have hdrop : (authority.toList ++ path.toList).dropWhile (!endsAuthority ·) = path.toList := by
    obtain ⟨rest, hrest⟩ := hslash
    rw [List.dropWhile_append_of_pos fun c hc => by simp [hauth c hc], hrest]
    rfl
  have htake : path.toList.takeWhile (!endsPath ·) = path.toList := by
    rw [List.takeWhile_eq_self_iff]
    intro c hc
    simp [hpath c hc]
  rw [urlPath]
  simp only [hafter, hdrop, htake, String.ofList_toList]

theorem endsPath_of_pathChar {c : Char} (h : pathChar c = true) : endsPath c = false := by
  by_contra hends
  simp only [endsPath, Bool.not_eq_false, Bool.or_eq_true, decide_eq_true_eq] at hends
  rcases hends with rfl | rfl
  · exact absurd h (by decide)
  · exact absurd h (by decide)

/-- A parser that splits the URL and changes nothing. -/
def splitUrl : UrlCrate where
  path := urlPath
  path_append hscheme hauth hslash hplain :=
    urlPath_append hscheme hauth hslash fun c hc => endsPath_of_pathChar (hplain c hc)

/-- A request under the base of the client. -/
theorem path_clientBase (urls : UrlCrate) (server : ServerUrl) {path : String}
    (hpath : ∀ c ∈ path.toList, pathChar c = true) :
    urls.path (clientBase server.text ++ path) = "/api/v1" ++ path := by
  have heq : clientBase server.text ++ path =
      server.scheme ++ "://" ++ server.authority ++ ("/api/v1" ++ path) := by
    rw [clientBase, trimEndSlashes_text]
    exact String.append_assoc
  rw [heq]
  refine urls.path_append server.scheme_plain server.authority_plain ?_ fun c hc => ?_
  · exact ⟨"api/v1".toList ++ path.toList, by simp⟩
  · rw [String.toList_append] at hc
    rcases List.mem_append.mp hc with hc | hc
    · exact all_of_all (by decide : "/api/v1".toList.all pathChar = true) c hc
    · exact hpath c hc

/-- A prefix that was stripped stood in front. -/
theorem stripPrefix_some {pre text rest : String} (h : stripPrefix pre text = some rest) :
    pre ++ rest = text := by
  unfold stripPrefix at h
  split at h
  · rename_i hpre
    obtain ⟨t, ht⟩ := hpre
    obtain rfl := Option.some.inj h
    rw [← String.toList_inj, String.toList_append, String.toList_ofList, ← ht,
      List.drop_left]
  · cases h

/-- A scheme that could be stripped was all of the scheme. -/
theorem authority_of_stripPrefix (scheme : String) {rest : String} (hscheme : ':' ∉ scheme.toList)
    (h : stripPrefix (scheme ++ "://") (server.scheme ++ "://" ++ server.authority) =
      some rest) : rest = server.authority := by
  have hlist := congrArg String.toList (stripPrefix_some h)
  have hleft : (scheme ++ "://" ++ rest).toList =
      scheme.toList ++ ':' :: ('/' :: '/' :: rest.toList) := by
    simp
  have hright : (server.scheme ++ "://" ++ server.authority).toList =
      server.scheme.toList ++ ':' :: ('/' :: '/' :: server.authority.toList) := by
    simp
  rw [hleft, hright] at hlist
  have hrest := congrArg (List.dropWhile (· ≠ ':')) hlist
  rw [dropWhile_scheme hscheme, dropWhile_scheme server.scheme_plain] at hrest
  exact String.toList_inj.mp (by simpa using hrest)

/-- The WebSocket URL has the path `/ws`, whatever the scheme. -/
theorem path_wsUrl (urls : UrlCrate) (server : ServerUrl) :
    urls.path (wsUrl server.text) = "/ws" := by
  have hws : ∀ scheme : String, ':' ∉ scheme.toList →
      urls.path (scheme ++ "://" ++ server.authority ++ "/ws") = "/ws" := fun scheme hscheme =>
    urls.path_append hscheme server.authority_plain ⟨['w', 's'], rfl⟩ (all_of_all (by decide))
  rw [wsUrl, trimEndSlashes_text]
  cases hhttps : stripPrefix "https://" (server.scheme ++ "://" ++ server.authority) with
  | some rest =>
      obtain rfl := authority_of_stripPrefix "https" (by decide) hhttps
      exact hws "wss" (by decide)
  | none =>
      cases hhttp : stripPrefix "http://" (server.scheme ++ "://" ++ server.authority) with
      | some rest =>
          obtain rfl := authority_of_stripPrefix "http" (by decide) hhttp
          exact hws "ws" (by decide)
      | none => exact hws server.scheme server.scheme_plain

end Path

/-! ### Agreement -/

section Agreement

variable (axum : Matcher (List (Method × Handler))) (urls : UrlCrate)

/-- The routes under `/api/v1/{name}`. -/
def apiRoutes (name : String) : List (List Segment × List (Method × Handler)) :=
  (((appRoutes.filterMap (Segment.afterLit "")).filterMap (Segment.afterLit "api")).filterMap
    (Segment.afterLit "v1")).filterMap (Segment.afterLit name)

/-- A request under the base of the client, put together from its segments. -/
theorem routed_api (server : ServerUrl) (name : String) (segs : List String) {path : String}
    {method : Method} {handlers : List (Method × Handler)} {handler : Handler}
    (hpath : "/api/v1" ++ path = "/".intercalate ("" :: "api" :: "v1" :: name :: segs))
    (hplain : ∀ s ∈ name :: segs, ∀ c ∈ s.toList, segmentChar c = true)
    (hlookup : lookup segs (apiRoutes name) = some handlers)
    (hmethod : methodHandler handlers method = some handler) :
    routeRequest axum method (urls.path (clientBase server.text ++ path)) = some handler := by
  have hsegs : ∀ s ∈ "" :: "api" :: "v1" :: name :: segs, ∀ c ∈ s.toList,
      segmentChar c = true := by
    intro s hs
    rcases List.mem_cons.mp hs with rfl | hs
    · exact all_of_all (by decide)
    · rcases List.mem_cons.mp hs with rfl | hs
      · exact all_of_all (by decide)
      · rcases List.mem_cons.mp hs with rfl | hs
        · exact all_of_all (by decide)
        · exact hplain s hs
  have hchars : ∀ c ∈ path.toList, pathChar c = true := by
    intro c hc
    have hmem : c ∈ ("/".intercalate ("" :: "api" :: "v1" :: name :: segs)).toList := by
      rw [← hpath, String.toList_append]
      exact List.mem_append_right _ hc
    exact forall_mem_intercalate (P := fun c => pathChar c = true) (all_of_all (by decide))
      (fun s hs c hc => Bool.or_eq_true_iff.mpr (.inr (hsegs s hs c hc))) c hmem
  have hroute : lookup ("" :: "api" :: "v1" :: name :: segs) appRoutes = some handlers :=
    lookup_lit (lookup_lit (lookup_lit (lookup_lit hlookup)))
  have hslash : ∀ s ∈ "" :: "api" :: "v1" :: name :: segs, '/' ∉ s.toList :=
    fun s hs hc => absurd (hsegs s hs '/' hc) (by decide)
  rw [path_clientBase urls server hchars, hpath, routeRequest,
    segments_intercalate hslash (by simp), route_appRoutes, hroute]
  exact hmethod

/-- The routes of one game. -/
theorem lookup_game {id : String} (hid : id ≠ "") (name : String) :
    lookup [id, name] (apiRoutes "games") =
      lookup [name] [([.lit "versions"], [(.post, .createVersion), (.get, .listVersions)]),
        ([.lit "head"], [(.get, .getHead)]), ([.lit "resolve"], [(.post, .resolve)])] := by
  have hroutes : apiRoutes "games" =
      [([], [(.post, .ensureGame)]),
       ([.param, .lit "versions"], [(.post, .createVersion), (.get, .listVersions)]),
       ([.param, .lit "head"], [(.get, .getHead)]),
       ([.param, .lit "resolve"], [(.post, .resolve)])] := by decide +kernel
  rw [hroutes, lookup_param hid rfl]
  rfl

theorem lookup_blob {hex : String} (hhex : hex ≠ "") :
    lookup [hex] (apiRoutes "blobs") =
      some [(.head, .blobHead), (.put, .blobPut), (.get, .blobGet)] := by
  have hroutes : apiRoutes "blobs" =
      [([.param], [(.head, .blobHead), (.put, .blobPut), (.get, .blobGet)])] := by decide +kernel
  rw [hroutes, lookup_param hhex rfl]
  rfl

/-- A game's route below its id reaches its handler, for any suffix of plain characters that
the table has. -/
theorem routed_game (server : ServerUrl) (gameId : GameId) {name suffix : String}
    {method : Method} {handlers : List (Method × Handler)} {handler : Handler}
    (hsuffix : suffix = "/" ++ name) (hname : ∀ c ∈ name.toList, segmentChar c = true)
    (hlookup : lookup [Uuid.text gameId, name] (apiRoutes "games") = some handlers)
    (hmethod : methodHandler handlers method = some handler) :
    routeRequest axum method
      (urls.path (clientBase server.text ++ "/games/" ++ Uuid.text gameId ++ suffix)) =
        some handler := by
  rw [hsuffix, String.append_assoc, String.append_assoc]
  refine routed_api axum urls server "games" [Uuid.text gameId, name] ?_ ?_ hlookup hmethod
  · simp [← String.toList_inj]
  · intro s hs
    rcases List.mem_cons.mp hs with rfl | hs
    · exact all_of_all (by decide)
    · rcases List.mem_cons.mp hs with rfl | hs
      · exact (uuid_plain gameId).plain
      · obtain rfl := List.mem_singleton.mp hs
        exact hname

/-- The path of a blob reaches the blob handler of the method. -/
theorem routed_blob (server : ServerUrl) (hash : WireHash) {method : Method} {handler : Handler}
    (hmethod : methodHandler [(.head, .blobHead), (.put, .blobPut), (.get, .blobGet)] method =
      some handler) :
    routeRequest axum method (urls.path (clientBase server.text ++ "/blobs/" ++ hash.toHex)) =
      some handler := by
  rw [String.append_assoc]
  refine routed_api axum urls server "blobs" [hash.toHex] ?_ ?_ (lookup_blob hash.plain.ne)
    hmethod
  · simp [← String.toList_inj]
  · intro s hs
    rcases List.mem_cons.mp hs with rfl | hs
    · exact all_of_all (by decide)
    · obtain rfl := List.mem_singleton.mp hs
      exact hash.plain.plain

/-- Every call of the client but the WebSocket reaches the handler written for it. -/
theorem client_routed (server : ServerUrl) (op : ClientOp) (hop : op ≠ .webSocket) :
    routeRequest axum op.method (urls.path (op.url server.text)) = some op.handler := by
  cases op with
  | pair =>
      exact routed_api axum urls server "devices" ["pair"] (by decide)
        (segmentChars_of_all (by decide)) rfl rfl
  | refresh =>
      exact routed_api axum urls server "auth" ["refresh"] (by decide)
        (segmentChars_of_all (by decide)) rfl rfl
  | ensureGame =>
      exact routed_api axum urls server "games" [] (by decide)
        (segmentChars_of_all (by decide)) rfl rfl
  | getConfig =>
      exact routed_api axum urls server "config" [] (by decide)
        (segmentChars_of_all (by decide)) rfl rfl
  | putConfig =>
      exact routed_api axum urls server "config" [] (by decide)
        (segmentChars_of_all (by decide)) rfl rfl
  | getHead g =>
      exact routed_game axum urls server g (by decide : "/head" = "/" ++ "head")
        (all_of_all (by decide)) (lookup_game (uuid_plain g).ne "head") rfl
  | listVersions g =>
      exact routed_game axum urls server g (by decide : "/versions" = "/" ++ "versions")
        (all_of_all (by decide)) (lookup_game (uuid_plain g).ne "versions") rfl
  | createVersion g =>
      exact routed_game axum urls server g (by decide : "/versions" = "/" ++ "versions")
        (all_of_all (by decide)) (lookup_game (uuid_plain g).ne "versions") rfl
  | resolveConflict g =>
      exact routed_game axum urls server g (by decide : "/resolve" = "/" ++ "resolve")
        (all_of_all (by decide)) (lookup_game (uuid_plain g).ne "resolve") rfl
  | blobExists hash => exact routed_blob axum urls server hash rfl
  | blobPutFile hash => exact routed_blob axum urls server hash rfl
  | blobGetToFile hash => exact routed_blob axum urls server hash rfl
  | webSocket => exact absurd rfl hop

/-- **Exactly the operations whose URL reaches their handler.**  For every configured server
URL, every game id and every hash: all requests of `ServerClient` do, and the upgrade request
of the WebSocket client does not, whatever searches the table and reads the URLs. -/
theorem client_routed_iff (server : ServerUrl) (op : ClientOp) :
    routeRequest axum op.method (urls.path (op.url server.text)) = some op.handler ↔
      op ≠ .webSocket := by
  constructor
  · rintro hrouted rfl
    change routeRequest axum .get (urls.path (wsUrl server.text)) = _ at hrouted
    rw [path_wsUrl, routeRequest, route_appRoutes] at hrouted
    exact absurd hrouted (by decide +kernel)
  · exact client_routed axum urls server op

/-- The server of the configuration's own example. -/
def nasServer : ServerUrl where
  scheme := "https"
  authority := "nas.local:8080"
  slashes := 1
  scheme_plain := by decide
  authority_ne := by decide
  authority_plain := none_of_any (by decide)

/-- The daemon asks for `/ws`, and no route of the server has this path. -/
theorem ws_upgrade_not_routed :
    ClientOp.webSocket.url nasServer.text = "wss://nas.local:8080/ws" ∧
    routeRequest bySegments ClientOp.webSocket.method
      (splitUrl.path (ClientOp.webSocket.url nasServer.text)) = none ∧
    routeRequest bySegments ClientOp.webSocket.method "/api/v1/ws" =
      some ClientOp.webSocket.handler := by
  decide +kernel

end Agreement

end Savr
