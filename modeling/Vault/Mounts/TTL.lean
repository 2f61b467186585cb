import Vault.Mounts.Table
import Vault.Helper.ParseUtil

/-!
# The lease TTLs of mounts

Each mount may set a default and a maximum lease TTL, zero meaning "use the system's value".
`sys/mounts/<path>` (`handleMount`) parses both and compares them, and compares a default
against the system maximum when no maximum is given. `sys/mounts/<path>/tune`
(`handleTuneWriteCommon` and `tuneMountTTLs`) compares the two only when both are non-zero.
The values a backend sees come from `dynamicSystemView.fetchTTLs`, which puts the system's
value in place of a zero.

What every request keeps is only that two non-zero TTLs are ordered (`TTLsOrdered`). The
effective default may still exceed the effective maximum, when one of the two is zero
(`fetchTTLs_ordered_iff`): a mount enabled with only a maximum below the system default is
such a mount. A tune whose TTL step fails leaves the TTLs as they were, the failed write
included; a tune that fails on a later option keeps the new TTLs.
-/

namespace Vault.Mounts

open GoRuntime GoStrings MachineArith Vault.Helper

/-- `MountConfig`: the lease TTLs of a mount, in nanoseconds; zero means unset. -/
structure MountConfig where
  defaultLeaseTTL : ℤ
  maxLeaseTTL : ℤ
deriving DecidableEq, Repr

/-- The core's `defaultLeaseTTL` and `maxLeaseTTL`. -/
structure SystemTTLs where
  defaultLeaseTTL : ℤ
  maxLeaseTTL : ℤ
deriving DecidableEq, Repr

/-- `dynamicSystemView.fetchTTLs`: the mount's TTLs, the system's in place of a zero. -/
def fetchTTLs (core : SystemTTLs) (mountEntry : Option MountConfig) : ℤ × ℤ :=
  match mountEntry with
  | none => (core.defaultLeaseTTL, core.maxLeaseTTL)
  | some config =>
    (if config.defaultLeaseTTL ≠ 0 then config.defaultLeaseTTL else core.defaultLeaseTTL,
      if config.maxLeaseTTL ≠ 0 then config.maxLeaseTTL else core.maxLeaseTTL)

/-- `int(d.Seconds())`, as the messages print a duration. -/
def secondsOf (d : ℤ) : ℤ := truncToInt (durationSeconds d)

/-- A `Go` error of a helper returned by a handler with a prefix of its own; a panic passes. -/
def prefixError {α : Type} (pre : String) : Go α → Go α
  | .error (.error msg) => .error (.error (pre ++ msg))
  | r => r

/-- The `switch` of `handleMount` on a TTL field: empty and `system` leave it unset. -/
def parseMountTTL (parseDuration : String → Go ℤ) (which ttl : String) : Go ℤ :=
  match ttl with
  | "" | "system" => pure 0
  | s => prefixError ("unable to parse " ++ which ++ " TTL of " ++ s ++ ": ")
      (parseDurationSecond parseDuration (.string s))

/-- The TTL validation of `handleMount`: the config the new mount gets. -/
def handleMountTTLs (parseDuration : String → Go ℤ) (core : SystemTTLs)
    (defaultLeaseTTL maxLeaseTTL : String) : Go MountConfig := do
  let tmpDef ← parseMountTTL parseDuration "default" defaultLeaseTTL
  let tmpMax ← parseMountTTL parseDuration "max" maxLeaseTTL
  if tmpMax ≠ 0 ∧ tmpDef > tmpMax then
    throw (.error "given default lease TTL greater than given max lease TTL")
  if tmpDef > core.maxLeaseTTL ∧ tmpMax = 0 then
    throw (.error ("given default lease TTL greater than system max lease TTL of " ++
      toString (secondsOf core.maxLeaseTTL)))
  pure ⟨tmpDef, tmpMax⟩

/-- The `switch` of `handleTuneWriteCommon` on a TTL field: empty keeps the mount's value,
`system` clears it. -/
def parseTuneTTL (parseDuration : String → Go ℤ) (current : ℤ) (ttl : String) : Go ℤ :=
  match ttl with
  | "" => pure current
  | "system" => pure 0
  | s => parseDurationSecond parseDuration (.string s)

/-- `tuneMountTTLs`: the config the mount entry is left with, and the outcome. The two TTLs
are compared only when both are non-zero; a failed write of the mount table is rolled back. -/
def tuneMountTTLs (me : MountConfig) (newDefault newMax : ℤ) (persistOk : Bool) :
    MountConfig × Go Unit :=
  if newDefault ≠ 0 ∧ newMax ≠ 0 ∧ newMax < newDefault then
    (me, throw (.error ("backend max lease TTL of " ++ toString (secondsOf newMax) ++
      " would be less than backend default lease TTL of " ++ toString (secondsOf newDefault))))
  else
    let origMax := me.maxLeaseTTL
    let origDefault := me.defaultLeaseTTL
    if persistOk then (⟨newDefault, newMax⟩, pure ())
    else (⟨origDefault, origMax⟩,
      throw (.error "failed to update mount table, rolling back TTL changes"))

/-! ## Requests on the mounts -/

/-- The mount table with each mounted path's TTLs. -/
structure TTLState where
  core : Core
  config : String → MountConfig

/-- `untunableMounts`. -/
def untunableMounts : List String := ["cubbyhole/", "sys/", "audit/", "identity/"]

/-- `sanitizePath`. -/
def sanitizePath (path : String) : String :=
  let path := if hasSuffix path "/" then path else path ++ "/"
  if hasPrefix path "/" then trimPrefix path "/" else path

/-- `handleMount`, for the fields that decide the TTLs and the table: the TTLs are validated
before the core mounts the path. -/
def handleMount (parseDuration : String → Go ℤ) (sys : SystemTTLs) (s : TTLState)
    (path type defaultLeaseTTL maxLeaseTTL : String) : Go TTLState := do
  let path := sanitizePath path
  let config ← handleMountTTLs parseDuration sys defaultLeaseTTL maxLeaseTTL
  match mount s.core ⟨path, type⟩ with
  | .ok core => pure ⟨core, Function.update s.config (withSlash path) config⟩
  | .error msg => throw (.error msg)

/-- `handleTuneWriteCommon` up to its TTL step, then the request's other options
(`laterOptions`), which may fail after the TTLs were written. The state is the one the code
leaves, also when it returns an error. -/
def handleTuneWriteCommon (parseDuration : String → Go ℤ) (s : TTLState)
    (path defaultLeaseTTL maxLeaseTTL : String) (persistOk : Bool) (laterOptions : Go Unit) :
    TTLState × Go Unit :=
  let path := sanitizePath path
  if untunableMounts.any (hasPrefix path ·) then (s, throw (.error ("cannot tune " ++ goQuote path)))
  else
    let mountPath := matchingMount s.core.router path
    if mountPath = "" then
      (s, throw (.error ("tune of path " ++ goQuote path ++ " failed: no mount entry found")))
    else
      let me := s.config mountPath
      match parseTuneTTL parseDuration me.defaultLeaseTTL defaultLeaseTTL,
        parseTuneTTL parseDuration me.maxLeaseTTL maxLeaseTTL with
      | .error e, _ => (s, .error e)
      | .ok _, .error e => (s, .error e)
      | .ok newDefault, .ok newMax =>
        if newDefault ≠ me.defaultLeaseTTL ∨ newMax ≠ me.maxLeaseTTL then
          let (me', r) := tuneMountTTLs me newDefault newMax persistOk
          let s' : TTLState := ⟨s.core, Function.update s.config mountPath me'⟩
          match r with
          | .error e => (s', .error e)
          | .ok () => (s', laterOptions)
        else (s, laterOptions)

/-- A request to `sys/mounts`: an enable, or a tune with the outcome of its table write and of
its other options. -/
inductive TTLRequest where
  | enable (path type defaultLeaseTTL maxLeaseTTL : String)
  | tune (path defaultLeaseTTL maxLeaseTTL : String) (persistOk : Bool) (laterOptions : Go Unit)

/-- One request: the state it leaves, and its outcome. A failed enable changes nothing. -/
def TTLRequest.exec (parseDuration : String → Go ℤ) (sys : SystemTTLs) (s : TTLState) :
    TTLRequest → TTLState × Go Unit
  | .enable path type d m =>
    match handleMount parseDuration sys s path type d m with
    | .ok s' => (s', pure ())
    | .error e => (s, .error e)
  | .tune path d m persistOk later => handleTuneWriteCommon parseDuration s path d m persistOk later

/-- The state after a sequence of requests, each run whatever the previous ones returned. -/
def runTTLRequests (parseDuration : String → Go ℤ) (sys : SystemTTLs) (s : TTLState)
    (reqs : List TTLRequest) : TTLState :=
  reqs.foldl (fun s r => (r.exec parseDuration sys s).1) s

/-- The mounts the core starts with, with no TTLs set. -/
def initialTTLState : TTLState := ⟨requiredMounts, fun _ => ⟨0, 0⟩⟩

/-! ## What the requests keep -/

/-- Two TTLs that are both set are ordered. -/
def TTLsOrdered (config : MountConfig) : Prop :=
  config.defaultLeaseTTL ≠ 0 → config.maxLeaseTTL ≠ 0 → config.defaultLeaseTTL ≤ config.maxLeaseTTL

/-- The TTLs a backend sees are ordered exactly when neither unset value brings in a system
value on the wrong side. -/
theorem fetchTTLs_ordered_iff {sys : SystemTTLs} (hsys : sys.defaultLeaseTTL ≤ sys.maxLeaseTTL)
    {config : MountConfig} (hconfig : TTLsOrdered config) :
    (fetchTTLs sys (some config)).1 ≤ (fetchTTLs sys (some config)).2 ↔
      (config.defaultLeaseTTL = 0 → config.maxLeaseTTL ≠ 0 →
        sys.defaultLeaseTTL ≤ config.maxLeaseTTL) ∧
      (config.maxLeaseTTL = 0 → config.defaultLeaseTTL ≠ 0 →
        config.defaultLeaseTTL ≤ sys.maxLeaseTTL) := by
  unfold TTLsOrdered at hconfig
  -- one case for each of the two values being set or not
  by_cases hd : config.defaultLeaseTTL = 0 <;> by_cases hm : config.maxLeaseTTL = 0 <;>
    simp [fetchTTLs, hd, hm, hsys, hconfig]

theorem handleMountTTLs_ordered {parseDuration : String → Go ℤ} {sys : SystemTTLs}
    {d m : String} {config : MountConfig} (h : handleMountTTLs parseDuration sys d m = .ok config) :
    TTLsOrdered config := by
  unfold handleMountTTLs at h
  obtain ⟨tmpDef, -, h⟩ := bind_eq_ok h
  obtain ⟨tmpMax, -, h⟩ := bind_eq_ok h
  by_cases hgiven : tmpMax ≠ 0 ∧ tmpDef > tmpMax
  · rw [if_pos hgiven] at h
    cases h
  by_cases hsystem : tmpDef > sys.maxLeaseTTL ∧ tmpMax = 0
  · rw [if_neg hgiven, if_pos hsystem] at h
    cases h
  -- both checks passed: the config is the two parsed values
  rw [if_neg hgiven, if_neg hsystem] at h
  obtain rfl : (⟨tmpDef, tmpMax⟩ : MountConfig) = config := Except.ok.inj h
  intro _ hmax
  dsimp only at hmax ⊢
  omega

theorem tuneMountTTLs_ordered (me : MountConfig) (newDefault newMax : ℤ) (persistOk : Bool)
    (hme : TTLsOrdered me) : TTLsOrdered (tuneMountTTLs me newDefault newMax persistOk).1 := by
  unfold tuneMountTTLs
  split_ifs with hcheck hpersist
  · exact hme
  · -- the check let the pair through: both set means ordered
    intro hd hm
    dsimp only at hd hm ⊢
    omega
  · exact hme

/-- A failed `tuneMountTTLs` leaves the entry as it was: refused before the write, or rolled
back after it. -/
theorem tuneMountTTLs_error {me : MountConfig} {newDefault newMax : ℤ} {persistOk : Bool}
    {e : GoError} (h : (tuneMountTTLs me newDefault newMax persistOk).2 = .error e) :
    (tuneMountTTLs me newDefault newMax persistOk).1 = me := by
  unfold tuneMountTTLs at h ⊢
  split_ifs at h ⊢ with hcheck hpersist
  · rfl
  · cases h
  · rfl

/-- Every mounted path's TTLs are ordered when both are set. -/
def ConfigsOrdered (s : TTLState) : Prop := ∀ p, TTLsOrdered (s.config p)

theorem ConfigsOrdered.update {s : TTLState} (hs : ConfigsOrdered s) (core : Core) (path : String)
    {config : MountConfig} (hconfig : TTLsOrdered config) :
    ConfigsOrdered ⟨core, Function.update s.config path config⟩ := by
  intro p
  by_cases hp : p = path
  · subst hp
    simpa using hconfig
  · simpa [Function.update_of_ne hp] using hs p

theorem handleMount_ordered {parseDuration : String → Go ℤ} {sys : SystemTTLs} {s s' : TTLState}
    {path type d m : String} (hs : ConfigsOrdered s)
    (h : handleMount parseDuration sys s path type d m = .ok s') : ConfigsOrdered s' := by
  unfold handleMount at h
  obtain ⟨config, hconfig, h⟩ := bind_eq_ok h
  split at h
  · cases h
    exact hs.update _ _ (handleMountTTLs_ordered hconfig)
  · cases h

/-- What a tune does to the state: nothing, or the entry of the matched mount gets what
`tuneMountTTLs` leaves, and the later options run when it succeeds. -/
theorem handleTuneWriteCommon_cases (parseDuration : String → Go ℤ) (s : TTLState)
    (path d m : String) (persistOk : Bool) (laterOptions : Go Unit) :
    (handleTuneWriteCommon parseDuration s path d m persistOk laterOptions).1 = s ∨
      ∃ mountPath newDefault newMax,
        handleTuneWriteCommon parseDuration s path d m persistOk laterOptions =
          (⟨s.core, Function.update s.config mountPath
              (tuneMountTTLs (s.config mountPath) newDefault newMax persistOk).1⟩,
            (tuneMountTTLs (s.config mountPath) newDefault newMax persistOk).2 >>=
              fun _ => laterOptions) := by
  unfold handleTuneWriteCommon
  dsimp only
  split_ifs with hun hnone
  · exact .inl rfl
  · exact .inl rfl
  · split
    · exact .inl rfl
    · exact .inl rfl
    · next newDefault newMax _ _ =>
      split_ifs
      · refine .inr ⟨matchingMount s.core.router (sanitizePath path), newDefault, newMax, ?_⟩
        generalize (tuneMountTTLs _ newDefault newMax persistOk).2 = r
        cases r <;> rfl
      · exact .inl rfl

theorem handleTuneWriteCommon_ordered (parseDuration : String → Go ℤ) {s : TTLState}
    (path d m : String) (persistOk : Bool) (laterOptions : Go Unit) (hs : ConfigsOrdered s) :
    ConfigsOrdered (handleTuneWriteCommon parseDuration s path d m persistOk laterOptions).1 := by
  rcases handleTuneWriteCommon_cases parseDuration s path d m persistOk laterOptions with
    h | ⟨mountPath, newDefault, newMax, h⟩
  · rw [h]
    exact hs
  · rw [h]
    exact hs.update _ _ (tuneMountTTLs_ordered _ _ _ _ (hs _))

/-- A tune that fails leaves the TTLs as they were, unless the TTL step succeeded and a later
option failed. -/
theorem handleTuneWriteCommon_error (parseDuration : String → Go ℤ) {s : TTLState}
    (path d m : String) (persistOk : Bool) (laterOptions : Go Unit) {e : GoError}
    (h : (handleTuneWriteCommon parseDuration s path d m persistOk laterOptions).2 = .error e) :
    (handleTuneWriteCommon parseDuration s path d m persistOk laterOptions).1.config = s.config ∨
      laterOptions = .error e := by
  rcases handleTuneWriteCommon_cases parseDuration s path d m persistOk laterOptions with
    hs | ⟨mountPath, newDefault, newMax, hout⟩
  · exact .inl (congrArg TTLState.config hs)
  · rw [hout] at h ⊢
    -- the TTL step either failed and was rolled back, or let the later options run
    rcases ht : (tuneMountTTLs (s.config mountPath) newDefault newMax persistOk).2 with e' | u
    · left
      dsimp only
      rw [tuneMountTTLs_error ht, Function.update_eq_self]
    · rw [ht] at h
      exact .inr h

theorem TTLRequest.exec_ordered (parseDuration : String → Go ℤ) (sys : SystemTTLs) {s : TTLState}
    (hs : ConfigsOrdered s) (r : TTLRequest) : ConfigsOrdered (r.exec parseDuration sys s).1 := by
  cases r with
  | enable path type d m =>
    -- a failed enable leaves the state as it was
    rcases h : handleMount parseDuration sys s path type d m with e | s'
    · simp only [TTLRequest.exec, h]
      exact hs
    · simp only [TTLRequest.exec, h]
      exact handleMount_ordered hs h
  | tune path d m persistOk later =>
    simp only [TTLRequest.exec]
    exact handleTuneWriteCommon_ordered parseDuration path d m persistOk later hs

theorem runTTLRequests_ordered (parseDuration : String → Go ℤ) (sys : SystemTTLs) :
    ∀ (reqs : List TTLRequest) {s : TTLState}, ConfigsOrdered s →
      ConfigsOrdered (runTTLRequests parseDuration sys s reqs)
  | [], _, hs => hs
  | r :: reqs, _, hs => runTTLRequests_ordered parseDuration sys reqs (r.exec_ordered parseDuration sys hs)

theorem initialTTLState_ordered : ConfigsOrdered initialTTLState := fun _ h => absurd rfl h

theorem runTTLRequests_ttls (parseDuration : String → Go ℤ) (sys : SystemTTLs)
    (hsys : sys.defaultLeaseTTL ≤ sys.maxLeaseTTL) (reqs : List TTLRequest) :
    (∀ p, let config := (runTTLRequests parseDuration sys initialTTLState reqs).config p
      TTLsOrdered config ∧
        ((fetchTTLs sys (some config)).1 ≤ (fetchTTLs sys (some config)).2 ↔
          (config.defaultLeaseTTL = 0 → config.maxLeaseTTL ≠ 0 →
            sys.defaultLeaseTTL ≤ config.maxLeaseTTL) ∧
          (config.maxLeaseTTL = 0 → config.defaultLeaseTTL ≠ 0 →
            config.defaultLeaseTTL ≤ sys.maxLeaseTTL))) ∧
    ∀ (s : TTLState) (path d m : String) (persistOk : Bool) (laterOptions : Go Unit) (e : GoError),
      (handleTuneWriteCommon parseDuration s path d m persistOk laterOptions).2 = .error e →
      (handleTuneWriteCommon parseDuration s path d m persistOk laterOptions).1.config =
          s.config ∨ laterOptions = .error e := by
  have hrun := runTTLRequests_ordered parseDuration sys reqs initialTTLState_ordered
  refine ⟨fun p => ⟨hrun p, fetchTTLs_ordered_iff hsys (hrun p)⟩, ?_⟩
  intro s path d m persistOk laterOptions e h
  exact handleTuneWriteCommon_error parseDuration path d m persistOk laterOptions h

/-- The system TTLs of a default install: 768 hours for both. -/
def defaultSystemTTLs : SystemTTLs := ⟨2764800 * second, 2764800 * second⟩

/-- A mount enabled with a maximum of one hour and no default: its backend sees the system
default of 768 hours above its maximum. -/
theorem runTTLRequests_ttls_max_only :
    let config := (runTTLRequests (fun _ => .ok 0) defaultSystemTTLs initialTTLState
      [TTLRequest.enable "kv" "kv" "" "3600"]).config "kv/"
    TTLsOrdered config ∧
      (fetchTTLs defaultSystemTTLs (some config)).2 < (fetchTTLs defaultSystemTTLs (some config)).1 := by
  intro config
  obtain ⟨hordered, hiff⟩ := (runTTLRequests_ttls (fun _ => .ok 0) defaultSystemTTLs (by decide)
    [TTLRequest.enable "kv" "kv" "" "3600"]).1 "kv/"
  refine ⟨hordered, not_le.mp ?_⟩
  -- the default is unset, and the maximum is below the system default
  have hkv : (runTTLRequests (fun _ => .ok 0) defaultSystemTTLs initialTTLState
      [TTLRequest.enable "kv" "kv" "" "3600"]).config "kv/" = ⟨0, 3600 * second⟩ := by decide
  rw [hiff]
  rintro ⟨hdefault, -⟩
  rw [hkv] at hdefault
  exact absurd (hdefault rfl (by decide)) (by decide)

/-- A tune that sets a maximum and then fails on an invalid `listing_visibility` keeps the new
maximum. -/
example :
    let s := runTTLRequests (fun _ => .ok 0) defaultSystemTTLs initialTTLState
      [TTLRequest.enable "kv" "kv" "" ""]
    let out := handleTuneWriteCommon (fun _ => .ok 0) s "kv" "" "7200" true
      (.error (.error "invalid listing_visibility bogus"))
    out.2 = .error (.error "invalid listing_visibility bogus") ∧
      out.1.config "kv/" = ⟨0, 7200 * second⟩ ∧ s.config "kv/" = ⟨0, 0⟩ := by
  decide

end Vault.Mounts
