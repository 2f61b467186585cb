import Vault.Routing.Router
import Vault.Token.Store

/-!
# Routing a request

`routeCommon` (vault/router.go) finds the mount of a request's path, rewrites the request for
the backend (the path relative to the mount, the storage view, the client token salted for
the mount or replaced by the cubbyhole ID, the headers filtered, the per-request fields
cleared) and installs a deferred function that puts the fields back once the backend returns,
whatever the backend did to them.

The cubbyhole branch returns before that function is installed: a rollback, a missing or
non-service token entry, a salt error or an empty cubbyhole ID leave the request with the path
relative to the mount and the mount's storage view (`routeCommon_cubbyhole_rollback`). Every
other return leaves the fields as they came, the path up to the slash the lookup may add
(`routeCommon_restores`).
-/

namespace Vault.Routing

open GoStrings SortedStore Vault.Token

variable {Addr : Type}

/-- `salt.Salt`: the salt and its configured hash, which returns hex text. -/
structure Salt where
  salt : String
  hashFunc : String → String

/-- `salt.SaltID(salt, id, hash)`: the hash of the salt and the ID together. -/
def saltID (salt id : String) (hash : String → String) : String := hash (salt ++ id)

/-- `Salt.SaltID`. -/
def Salt.saltID (s : Salt) (id : String) : String := Vault.Routing.saltID s.salt id s.hashFunc

/-- What routing reads besides the router: SHA-1 as hex text, and the token store's salt as
`tokenStoreSaltFunc` gives it. -/
structure RouteEnv where
  sha1Hash : String → String
  tokenStoreSalt : Except String Salt

/-- `routeEntry.SaltID`: salted with the mount's UUID. -/
def RouteEntry.saltID (env : RouteEnv) (re : RouteEntry Addr) (id : String) : String :=
  Vault.Routing.saltID re.mountEntry.uuid id env.sha1Hash

/-- What `routeCommon` returns: the response, the existence check's two answers, the error. -/
structure RouteResult where
  resp : Option Response
  ok : Bool
  «exists» : Bool
  err : Option String

/-- `logical.ErrUnsupportedPath`. -/
def errUnsupportedPath : String := "unsupported path"

/-- `cubbyholeMountPath`. -/
def cubbyholeMountPath : String := "cubbyhole/"

/-- `deniedPassthroughRequestHeaders`. -/
def deniedPassthroughRequestHeaders : List String := ["X-Vault-Token"]

/-- The answer for a path without a handler. -/
def noHandler (path : String) : RouteResult :=
  ⟨some (errorResponse ("no handler for route '" ++ path ++ "'")), false, false,
    some errUnsupportedPath⟩

/-- The client token the backend sees: unchanged for the token store and `sys/`, the
cubbyhole ID or the doubly salted token for the cubbyhole, and the token salted for the mount
otherwise; the cubbyhole's early returns are the errors. -/
def clientTokenFor (env : RouteEnv) (re : RouteEntry Addr) (req : Request Addr)
    (originalPath : String) : Except RouteResult String :=
  if hasPrefix originalPath "auth/token/" then .ok req.clientToken
  else if hasPrefix originalPath "sys/" then .ok req.clientToken
  else if hasPrefix originalPath cubbyholeMountPath then
    if req.operation = .rollback then .error ⟨none, false, false, none⟩
    else
      match req.tokenEntry with
      | none => .error ⟨none, false, false, some "nil token entry"⟩
      | some te =>
        if te.type ≠ tokenTypeService then
          .error ⟨some (errorResponse
            "cubbyhole operations are only supported by \"service\" type tokens"),
            false, false, none⟩
        else if te.namespaceID = rootNamespaceID ∧ hasPrefix req.clientToken "s." = false then
          match env.tokenStoreSalt with
          | .error err => .error ⟨none, false, false, some err⟩
          | .ok salt => .ok (re.saltID env (salt.saltID req.clientToken))
        else if te.cubbyholeID = "" then .error ⟨none, false, false, some "empty cubbyhole id"⟩
        else .ok te.cubbyholeID
  else .ok (re.saltID env req.clientToken)

/-- The token type a login gets on a mount whose configured type is `mountType`. -/
def tokenTypeFor (mountType authType : TokenType) : TokenType :=
  if mountType = tokenTypeService ∨ mountType = tokenTypeBatch then mountType
  else if mountType = tokenTypeDefault ∨ mountType = tokenTypeDefaultService then
    if authType = tokenTypeDefault ∨ authType = tokenTypeDefaultService ∨
        authType = tokenTypeService then tokenTypeService
    else tokenTypeBatch
  else if mountType = tokenTypeDefaultBatch then
    if authType = tokenTypeDefault ∨ authType = tokenTypeDefaultBatch ∨
        authType = tokenTypeBatch then tokenTypeBatch
    else tokenTypeService
  else authType

/-- What `routeCommon` does to a response: the headers filtered, and a login's aliases given
the mount's accessor (except on renewals) and its token type the mount's. -/
def adjustResponse (me : MountEntry) (path : String) (resp : Response) : Response :=
  let resp := { resp with
    headers := if me.allowedResponseHeaders ≠ [] then
      filteredHeaders (resp.headers.getD []) me.allowedResponseHeaders [] else none }
  match resp.auth with
  | none => resp
  | some auth =>
    let auth := if hasPrefix path "renew" then auth else
      { auth with
        entityAlias := auth.entityAlias.map fun a => { a with mountAccessor := me.accessor }
        groupAliases := auth.groupAliases.map fun a => { a with mountAccessor := me.accessor } }
    let auth := if me.type = "token" ∨ me.type = "ns_token" then auth else
      { auth with tokenType := tokenTypeFor me.tokenType auth.tokenType }
    { resp with auth := some auth }

/-- The mount lookup of `routeCommon`: the adjusted path and the mount found. "foo" is looked
up as "foo/" when nothing is mounted over it. -/
def findMount (r : Router Addr) (path : String) : String × Option (String × RouteEntry Addr) :=
  match r.root.longestPrefix path with
  | none => if hasSuffix path "/" then (path, none)
    else (path ++ "/", r.root.longestPrefix (path ++ "/"))
  | some found => (path, some found)

/-- `routeCommon`, in the root namespace: the result, and the request as the call leaves
it. -/
def routeCommon (env : RouteEnv) (r : Router Addr) (req : Request Addr) (existenceCheck : Bool) :
    RouteResult × Request Addr :=
  match findMount r req.path with
  | (_, none) => (noHandler req.path, req)
  | (adjustedPath, some (mount, re)) =>
    let req := { req with path := adjustedPath }
    match re.backend with
    | none => (noHandler req.path, req)
    | some backend =>
      if re.tainted ∧ req.operation ≠ .revoke ∧ req.operation ≠ .rollback then
        (noHandler req.path, req)
      else
        let originalPath := req.path
        let path := trimPrefix req.path mount
        let req := { req with
          path := if path = "/" then "" else path
          mountPoint := mount
          mountType := re.mountEntry.type
          storage := some re.storagePrefix }
        let originalEntityID := req.entityID
        let clientToken := req.clientToken
        match clientTokenFor env re req originalPath with
        | .error result => (result, req)
        | .ok token =>
          let req := { req with clientToken := token }
          let originalConn := req.connection
          let originalReqID := req.id
          let originalClientTokenRemainingUses := req.clientTokenRemainingUses
          let originalMFACreds := req.mfaCreds
          let originalControlGroup := req.controlGroup
          let headers := req.headers
          let wrapInfo := req.wrapInfo
          let originalPolicyOverride := req.policyOverride
          let reqTokenEntry := req.tokenEntry
          let req := { req with
            clientTokenRemainingUses := 0
            mfaCreds := []
            controlGroup := none
            headers := if re.mountEntry.passthroughRequestHeaders ≠ [] then
              filteredHeaders (headers.getD []) re.mountEntry.passthroughRequestHeaders
                deniedPassthroughRequestHeaders
              else none
            tokenEntry := none }
          -- the deferred function, from the values saved before the backend runs
          let restore (out : Request Addr) : Request Addr := { out with
            path := originalPath
            mountPoint := mount
            mountType := re.mountEntry.type
            connection := originalConn
            id := originalReqID
            storage := none
            clientToken := clientToken
            clientTokenRemainingUses := originalClientTokenRemainingUses
            wrapInfo := wrapInfo
            headers := headers
            policyOverride := originalPolicyOverride
            lastRemoteWAL := 0
            mountAccessor := re.mountEntry.accessor
            entityID := originalEntityID
            mfaCreds := originalMFACreds
            tokenEntry := reqTokenEntry
            controlGroup := originalControlGroup }
          if existenceCheck then
            let (out, ok, «exists», err) := backend.handleExistenceCheck req
            (⟨none, ok, «exists», err⟩, restore out)
          else
            let (out, resp, err) := backend.handleRequest req
            (⟨resp.map (adjustResponse re.mountEntry out.path), false, false, err⟩, restore out)


/-! ## Restoring the request -/

/-- The request `out` a call leaves has the fields of the request `req` it was given: the path,
up to the slash the lookup adds; no storage view but the one it came with; and the client token,
headers, wrap info, remaining uses, MFA credentials, control group, entity and token entry. -/
def Restored (req out : Request Addr) : Prop :=
  (out.path = req.path ∨ out.path = req.path ++ "/") ∧
  (out.storage = none ∨ out.storage = req.storage) ∧
  out.clientToken = req.clientToken ∧ out.headers = req.headers ∧ out.wrapInfo = req.wrapInfo ∧
  out.clientTokenRemainingUses = req.clientTokenRemainingUses ∧ out.mfaCreds = req.mfaCreds ∧
  out.controlGroup = req.controlGroup ∧ out.entityID = req.entityID ∧
  out.tokenEntry = req.tokenEntry

instance [DecidableEq Addr] (req out : Request Addr) : Decidable (Restored req out) := by
  unfold Restored
  infer_instance

theorem restored_path {req : Request Addr} {p : String} (hp : p = req.path ∨ p = req.path ++ "/") :
    Restored req { req with path := p } := by
  simp [Restored, hp]

theorem findMount_fst (r : Router Addr) (path : String) :
    (findMount r path).1 = path ∨ (findMount r path).1 = path ++ "/" := by
  unfold findMount
  split
  · split <;> simp
  · simp

/-- The mount found is mounted, over the adjusted path. -/
theorem findMount_snd {r : Router Addr} {path mount : String} {re : RouteEntry Addr}
    (h : (findMount r path).2 = some (mount, re)) :
    (mount, re) ∈ r.root.entries ∧ hasPrefix (findMount r path).1 mount := by
  unfold findMount at h ⊢
  split at h
  · split at h
    · cases h
    · next hs =>
      obtain ⟨hm, hp, -⟩ := Bucket.longestPrefix_spec h
      simp [hs, hm, hp]
  · next found hl =>
    cases h
    obtain ⟨hm, hp, -⟩ := Bucket.longestPrefix_spec hl
    simp [hm, hp]

/-- Outside the cubbyhole the client token is always found. -/
theorem clientTokenFor_ok (env : RouteEnv) (re : RouteEntry Addr) (req : Request Addr)
    {originalPath : String} (h : hasPrefix originalPath cubbyholeMountPath = false) :
    clientTokenFor env re req originalPath =
      .ok (if hasPrefix originalPath "auth/token/" ∨ hasPrefix originalPath "sys/"
        then req.clientToken else re.saltID env req.clientToken) := by
  unfold clientTokenFor
  by_cases h1 : hasPrefix originalPath "auth/token/" <;>
    by_cases h2 : hasPrefix originalPath "sys/" <;> simp [h, h1, h2]

/-- Routing a request outside the cubbyhole leaves its fields as they came, whatever the
backend does to them: every return before the rewrite leaves the path the lookup adjusted, and
every later one runs the deferred function. -/
theorem routeCommon_restores (env : RouteEnv) (r : Router Addr) (req : Request Addr)
    (existenceCheck : Bool) (hpath : hasPrefix (req.path ++ "/") cubbyholeMountPath = false) :
    Restored req (routeCommon env r req existenceCheck).2 := by
  have hadj := findMount_fst r req.path
  unfold routeCommon
  rcases hf : findMount r req.path with ⟨adj, _ | ⟨mount, re⟩⟩
  · simpa using (restored_path (Or.inl rfl) : Restored req { req with path := req.path })
  · rw [hf] at hadj
    have hcub : hasPrefix adj cubbyholeMountPath = false := by
      rcases hadj with rfl | rfl
      · exact hasPrefix_of_append hpath
      · exact hpath
    dsimp only
    cases re.backend with
    | none => exact restored_path hadj
    | some backend =>
      dsimp only
      split
      · -- a tainted mount
        exact restored_path hadj
      · rw [clientTokenFor_ok env re _ hcub]
        dsimp only
        split <;> simp [Restored, hadj]

/-- A request with every field empty but its operation and path. -/
def plainRequest (operation : Operation) (path : String) : Request Unit :=
  ⟨"r1", operation, path, none, none, none, "s.token", "", "", "", none, 0, "", false, [], none, 0,
    none⟩

/-- A backend that answers nothing and leaves the request as it gets it. -/
def idleBackend : Backend Unit :=
  ⟨none, fun req => (req, none, none), fun req => (req, false, false, none)⟩

theorem routeCommon_restores_kv :
    hasPrefix ("kv/foo" ++ "/") cubbyholeMountPath = false ∧
      Restored (plainRequest .read "kv/foo")
        (routeCommon ⟨id, .error "no salt"⟩
          (runRouterOps [.mount (some idleBackend) "kv/" kvMount "logical/u1/"])
          (plainRequest .read "kv/foo") false).2 :=
  ⟨by decide, routeCommon_restores _ _ _ _ (by decide)⟩

/-! ## The cubbyhole's early returns -/

theorem clientTokenFor_rollback (env : RouteEnv) (re : RouteEntry Addr) {req : Request Addr}
    {originalPath : String} (h : hasPrefix originalPath cubbyholeMountPath)
    (hop : req.operation = .rollback) :
    clientTokenFor env re req originalPath = .error ⟨none, false, false, none⟩ := by
  have htoken : hasPrefix originalPath "auth/token/" = false :=
    hasPrefix_eq_false_of_hasPrefix h (by decide) (by decide)
  have hsys : hasPrefix originalPath "sys/" = false :=
    hasPrefix_eq_false_of_hasPrefix h (by decide) (by decide)
  simp [clientTokenFor, htoken, hsys, h, hop]

/-- A rollback routed to the cubbyhole returns before the deferred function is installed: the
request keeps the path relative to the mount, shorter than the one given, and the mount's
storage view. -/
theorem routeCommon_cubbyhole_rollback (env : RouteEnv) (r : Router Addr) (req : Request Addr)
    (existenceCheck : Bool) (re : RouteEntry Addr)
    (hf : (findMount r req.path).2 = some (cubbyholeMountPath, re)) (hb : re.backend ≠ none)
    (hop : req.operation = .rollback) :
    let out := (routeCommon env r req existenceCheck).2
    out.path.length < req.path.length ∧ out.storage = some re.storagePrefix := by
  have hpre := (findMount_snd hf).2
  have hadj := findMount_fst r req.path
  obtain ⟨backend, hbk⟩ := Option.ne_none_iff_exists'.mp hb
  rcases hfm : findMount r req.path with ⟨adj, found⟩
  rw [hfm] at hf hpre hadj
  cases hf
  dsimp only at hpre hadj
  have hlen := length_trimPrefix hpre
  have hcub : cubbyholeMountPath.length = 10 := by decide
  have hlen' : adj.length ≤ req.path.length + 1 := by
    have hslash : "/".length = 1 := by decide
    rcases hadj with rfl | rfl <;> simp [hslash]
  intro out
  simp only [out, routeCommon, hfm, hbk, hop, clientTokenFor_rollback env re hpre, ne_eq,
    not_true_eq_false, and_false, if_false, and_true]
  -- the path is left relative to the mount
  split
  · rw [String.length_empty]
    omega
  · omega

/-- A cubbyhole mount. -/
def cubbyholeMount : MountEntry :=
  ⟨"cubbyhole/", "cubbyhole", "u2", "cubbyhole_5678", false, 0, [], []⟩

theorem routeCommon_cubbyhole_rollback_foo :
    let r := runRouterOps
      [.mount (some idleBackend) cubbyholeMountPath cubbyholeMount "logical/c1/"]
    let req := plainRequest .rollback "cubbyhole/foo"
    let out := (routeCommon ⟨id, .error "no salt"⟩ r req false).2
    out.path.length < req.path.length ∧
      out.storage = some "logical/c1/" :=
  routeCommon_cubbyhole_rollback _ _ _ _
    ⟨false, some idleBackend, cubbyholeMount, "logical/c1/", pathsToRadix [], pathsToRadix []⟩
    rfl (by simp) rfl

example :
    let req := plainRequest .rollback "cubbyhole/foo"
    let r := runRouterOps
      [.mount (some idleBackend) cubbyholeMountPath cubbyholeMount "logical/c1/"]
    ¬ Restored req (routeCommon ⟨id, .error "no salt"⟩ r req false).2 := by
  decide

end Vault.Routing
