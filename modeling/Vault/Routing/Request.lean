import Vault.Token.Batch
import Vault.Helper.Strutil

/-!
# Requests, responses and backends

`logical.Request` with the fields the router reads or writes, `logical.Response` with the
fields it rewrites, and a backend by its special paths and its two handlers. A handler gets the
request and may change any of its fields: it returns the request as it leaves it, with its
response. Pointers the router only saves and puts back (the connection, the control group)
stand for themselves by an identity.
-/

namespace Vault.Routing

open GoStrings Vault.Helper Vault.Token

/-- `logical.Operation`. -/
inductive Operation where
  | create | read | update | delete | list | help | aliasLookahead | revoke | renew | rollback
deriving DecidableEq, Repr

/-- HTTP headers, `map[string][]string`, as their entries. -/
abbrev Headers := List (String × List String)

/-- `logical.RequestWrapInfo`. -/
structure RequestWrapInfo where
  ttl : ℤ
  format : String
  sealWrap : Bool
deriving DecidableEq, Repr

/-- `logical.Request`, with the fields the router reads or writes; the storage view stands for
itself by its prefix. -/
structure Request (Addr : Type) where
  id : String
  operation : Operation
  path : String
  storage : Option String
  headers : Option Headers
  connection : Option ℕ
  clientToken : String
  mountPoint : String
  mountType : String
  mountAccessor : String
  wrapInfo : Option RequestWrapInfo
  clientTokenRemainingUses : ℤ
  entityID : String
  policyOverride : Bool
  mfaCreds : List (String × List String)
  tokenEntry : Option (TokenEntry Addr)
  lastRemoteWAL : UInt64
  controlGroup : Option ℕ
deriving DecidableEq

/-- `logical.Alias`, with the field the router writes. -/
structure Alias where
  mountAccessor : String
deriving DecidableEq, Repr

/-- `logical.Auth`, with the fields the router rewrites (`Alias` is `entityAlias`). -/
structure Auth where
  entityAlias : Option Alias
  groupAliases : List Alias
  tokenType : TokenType
deriving DecidableEq, Repr

/-- `logical.Response`, with its string data and the fields the router rewrites. -/
structure Response where
  data : List (String × String)
  headers : Option Headers
  auth : Option Auth
deriving DecidableEq, Repr

/-- `logical.ErrorResponse`. -/
def errorResponse (text : String) : Response := ⟨[("error", text)], none, none⟩

/-- `logical.Paths`: the special paths the router reads. -/
structure Paths where
  root : List String
  unauthenticated : List String
deriving DecidableEq, Repr

/-- A backend: its special paths, and its handlers, each of which returns the request as it
leaves it. -/
structure Backend (Addr : Type) where
  specialPaths : Option Paths
  handleRequest : Request Addr → Request Addr × Option Response × Option String
  handleExistenceCheck : Request Addr → Request Addr × Bool × Bool × Option String

/-- `filteredHeaders`: the candidate headers, less the denied ones and compared without case,
that the original headers hold, under their original names (of two original names equal but
for case, the later one). -/
def filteredHeaders (origHeaders : Headers) (candidateHeaders deniedHeaders : List String) :
    Option Headers :=
  if candidateHeaders = [] then none
  else
    let allowedCandidateHeaders := difference candidateHeaders deniedHeaders true
    let lowerOrigHeaderKeys := origHeaders.map fun (key, _) => (toLower key, key)
    some (allowedCandidateHeaders.filterMap fun ch =>
      (lowerOrigHeaderKeys.reverse.lookup ch).map fun header =>
        (header, (origHeaders.lookup header).getD []))

end Vault.Routing
