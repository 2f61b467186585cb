import Vault.Helper.ParseUtil

/-!
# `framework.CalculateTTL` and the renewal of leases

`CalculateTTL` picks the TTL of a new or renewed lease: the period of a periodic token, or
else the requested increment, the backend's TTL or the mount's default, and caps it so that
the lease ends by the start time plus the smallest of the mount's, the backend's and the
explicit maximum. Times are truncated to the second; a zero start time stands for now.

A periodic lease is capped only by its explicit maximum, if it has one: each renewal
grants up to a period from the time of the renewal. The bound of the issue time plus the
effective maximum therefore holds for a secret's lease through any number of renewals
(`renewAll_expireTime`) and for a token that is not periodic, and for a periodic token only
through its explicit maximum (`renewToken_expireTime_lt`).
-/

namespace Vault.Framework

open GoRuntime MachineArith Vault.Helper

/-- A `time.Time` is taken in nanoseconds from the zero time, January 1 of year 1, UTC;
`IsZero` tests for `0`. `t.Truncate(time.Second)`: -/
def truncateSecond (t : ℤ) : ℤ := t - t % second

/-- What `CalculateTTL` asks of a `logical.SystemView`: the mount's default and maximum. -/
structure SystemView where
  defaultLeaseTTL : ℤ
  maxLeaseTTL : ℤ
deriving DecidableEq, Repr

/-- The warnings of `CalculateTTL`, with the durations their texts print. -/
inductive TTLWarning where
  | periodCapped (period maxTTL : ℤ)
  | ttlCapped (ttl maxValidTTL : ℤ)
deriving DecidableEq, Repr

/-- The mount's maximum, unless the backend or the caller asks for something smaller. -/
def maxTTLOf (sysView : SystemView) (backendMaxTTL explicitMaxTTL : ℤ) : ℤ :=
  let maxTTL := sysView.maxLeaseTTL
  let maxTTL := if backendMaxTTL > 0 ∧ backendMaxTTL < maxTTL then backendMaxTTL else maxTTL
  if explicitMaxTTL > 0 ∧ explicitMaxTTL < maxTTL then explicitMaxTTL else maxTTL

/-- The TTL before the cap, and the time the lease may not outlive (`0` for none). -/
def proposedTTL (sysView : SystemView) (increment backendTTL period explicitMaxTTL : ℤ)
    (startTime maxTTL : ℤ) : ℤ × List TTLWarning × ℤ :=
  if period > 0 then
    -- the period is capped to the max, and only the explicit max bounds the lifetime
    let (period, warnings) :=
      if period > maxTTL then (maxTTL, [TTLWarning.periodCapped period maxTTL]) else (period, [])
    (period, warnings, if explicitMaxTTL > 0 then startTime + explicitMaxTTL else 0)
  else
    let ttl := if increment > 0 then increment
      else if backendTTL > 0 then backendTTL
      else sysView.defaultLeaseTTL
    (ttl, [], startTime + maxTTL)

/-- `framework.CalculateTTL`, at the time `now`. -/
def calculateTTL (sysView : SystemView) (now : ℤ)
    (increment backendTTL period backendMaxTTL explicitMaxTTL : ℤ) (startTime : ℤ) :
    Go (ℤ × List TTLWarning) := do
  let now := truncateSecond now
  let startTime := if startTime = 0 then now else truncateSecond startTime
  let maxTTL := maxTTLOf sysView backendMaxTTL explicitMaxTTL
  if maxTTL ≤ 0 then throw (.error "max TTL must be greater than zero")
  let (ttl, warnings, maxValidTime) :=
    proposedTTL sysView increment backendTTL period explicitMaxTTL startTime maxTTL
  if maxValidTime ≠ 0 then
    let maxValidTTL := saturate64 (maxValidTime - now)
    if maxValidTTL ≤ 0 then throw (.error "past the max TTL, cannot renew")
    -- the proposed expiration is cut to what is left
    if wrap64 (maxValidTTL - ttl) < 0 then
      return (maxValidTTL, warnings ++ [.ttlCapped ttl maxValidTTL])
    return (ttl, warnings)
  return (ttl, warnings)

/-- The time `CalculateTTL` measures the maximum from: the zero time stands for now. -/
def leaseStart (now startTime : ℤ) : ℤ :=
  if startTime = 0 then truncateSecond now else truncateSecond startTime

/-! ## The cap -/

/-- The smallest of the mount's maximum and the positive ones among the backend's and the
explicit maximum. -/
def effectiveMaxTTL (sysView : SystemView) (backendMaxTTL explicitMaxTTL : ℤ) : ℤ :=
  min sysView.maxLeaseTTL
    (min (if 0 < backendMaxTTL then backendMaxTTL else sysView.maxLeaseTTL)
      (if 0 < explicitMaxTTL then explicitMaxTTL else sysView.maxLeaseTTL))

theorem maxTTLOf_eq_effectiveMaxTTL (sysView : SystemView) (backendMaxTTL explicitMaxTTL : ℤ) :
    maxTTLOf sysView backendMaxTTL explicitMaxTTL =
      effectiveMaxTTL sysView backendMaxTTL explicitMaxTTL := by
  unfold maxTTLOf effectiveMaxTTL
  dsimp only
  split_ifs <;> omega

/-- The maximum is positive and fits in a `Duration` when the mount's is. -/
theorem maxTTLOf_pos {sysView : SystemView} (hmax : 0 < sysView.maxLeaseTTL)
    (hfit : InInt64 sysView.maxLeaseTTL) (backendMaxTTL explicitMaxTTL : ℤ) :
    0 < maxTTLOf sysView backendMaxTTL explicitMaxTTL ∧
      InInt64 (maxTTLOf sysView backendMaxTTL explicitMaxTTL) := by
  rw [maxTTLOf_eq_effectiveMaxTTL]
  unfold effectiveMaxTTL InInt64 at *
  split_ifs <;> omega

theorem truncateSecond_nonneg {t : ℤ} (ht : 0 ≤ t) : 0 ≤ truncateSecond t := by
  unfold truncateSecond second
  omega

theorem truncateSecond_le (t : ℤ) : truncateSecond t ≤ t := by
  unfold truncateSecond second
  omega

theorem lt_truncateSecond_add (t : ℤ) : t < truncateSecond t + second := by
  unfold truncateSecond second
  omega

theorem proposedTTL_fst (sysView : SystemView) (increment backendTTL period explicitMaxTTL
    startTime maxTTL : ℤ) :
    (proposedTTL sysView increment backendTTL period explicitMaxTTL startTime maxTTL).1 =
      if 0 < period then min period maxTTL
      else if 0 < increment then increment
      else if 0 < backendTTL then backendTTL
      else sysView.defaultLeaseTTL := by
  unfold proposedTTL
  split_ifs <;> simp only [gt_iff_lt] at * <;> omega

theorem proposedTTL_snd_snd (sysView : SystemView) (increment backendTTL period explicitMaxTTL
    startTime maxTTL : ℤ) :
    (proposedTTL sysView increment backendTTL period explicitMaxTTL startTime maxTTL).2.2 =
      if 0 < period then (if 0 < explicitMaxTTL then startTime + explicitMaxTTL else 0)
      else startTime + maxTTL := by
  unfold proposedTTL
  split_ifs <;> rfl

/-- The proposed TTL is positive, and fits in a `Duration`. -/
theorem proposedTTL_fst_spec {sysView : SystemView} {increment backendTTL period explicitMaxTTL
    startTime maxTTL : ℤ} (hdefault : 0 < sysView.defaultLeaseTTL)
    (hdur : InInt64 increment ∧ InInt64 backendTTL ∧ InInt64 sysView.defaultLeaseTTL)
    (hmax : 0 < maxTTL) (hmax' : InInt64 maxTTL) :
    0 < (proposedTTL sysView increment backendTTL period explicitMaxTTL startTime maxTTL).1 ∧
      InInt64 (proposedTTL sysView increment backendTTL period explicitMaxTTL startTime maxTTL).1 := by
  obtain ⟨hinc, hbackend, hdef⟩ := hdur
  unfold InInt64 at *
  rw [proposedTTL_fst]
  split_ifs <;> omega

/-- What a successful `CalculateTTL` returns: a positive TTL no longer than the one proposed,
that ends by the time the lease may not outlive, when there is one. -/
theorem calculateTTL_eq_ok {sysView : SystemView} {now increment backendTTL period backendMaxTTL
    explicitMaxTTL startTime ttl t maxValidTime : ℤ} {warnings w : List TTLWarning}
    (hsys : 0 < sysView.defaultLeaseTTL)
    (hdur : InInt64 increment ∧ InInt64 backendTTL ∧ InInt64 sysView.defaultLeaseTTL)
    (hmaxFits : InInt64 (maxTTLOf sysView backendMaxTTL explicitMaxTTL))
    (hp : proposedTTL sysView increment backendTTL period explicitMaxTTL (leaseStart now startTime)
      (maxTTLOf sysView backendMaxTTL explicitMaxTTL) = (t, w, maxValidTime))
    (h : calculateTTL sysView now increment backendTTL period backendMaxTTL explicitMaxTTL
      startTime = .ok (ttl, warnings)) :
    0 < ttl ∧ ttl ≤ t ∧ (maxValidTime ≠ 0 → truncateSecond now + ttl ≤ maxValidTime) := by
  unfold calculateTTL at h
  have hmax : ¬maxTTLOf sysView backendMaxTTL explicitMaxTTL ≤ 0 := by
    intro hle
    rw [if_pos hle] at h
    cases h
  rw [if_neg hmax] at h
  obtain ⟨hpos, hfit⟩ : 0 < t ∧ InInt64 t := by
    have hfst := congrArg Prod.fst hp
    dsimp only at hfst
    rw [← hfst]
    exact proposedTTL_fst_spec hsys hdur (not_le.mp hmax) hmaxFits
  unfold leaseStart at hp
  rw [hp] at h
  dsimp only at h
  by_cases hvalid : maxValidTime = 0
  · -- nothing to outlive: the proposal is returned
    rw [if_neg (not_not.mpr hvalid)] at h
    cases h
    exact ⟨hpos, le_rfl, fun hne => absurd hvalid hne⟩
  rw [if_pos hvalid] at h
  have hleft : ¬saturate64 (maxValidTime - truncateSecond now) ≤ 0 := by
    intro hle
    rw [if_pos hle] at h
    cases h
  rw [if_neg hleft] at h
  -- the time left is positive, fits, and is at most what separates now from the limit
  have hleft' : 0 < maxValidTime - truncateSecond now := by
    rw [saturate64_le_zero_iff] at hleft
    omega
  have hsat := saturate64_le_self hleft'.le
  rw [wrap64_sub_of_nonneg (saturate64_inInt64 _) hfit (by omega) hpos.le] at h
  refine ⟨?_, ?_, fun _ => ?_⟩ <;> split_ifs at h with hcap <;> cases h <;> omega

theorem leaseStart_nonneg {now startTime : ℤ} (hnow : 0 ≤ now) (hstart : 0 ≤ startTime) :
    0 ≤ leaseStart now startTime := by
  unfold leaseStart
  split_ifs
  · exact truncateSecond_nonneg hnow
  · exact truncateSecond_nonneg hstart

/-- The bound of `CalculateTTL`: a lease that is not periodic ends by its start plus the
effective maximum; a periodic one gets at most the maximum at a time, and ends by its start
plus its explicit maximum when it has one. -/
theorem calculateTTL_within_max {sysView : SystemView} {now increment backendTTL period
    backendMaxTTL explicitMaxTTL startTime ttl : ℤ} {warnings : List TTLWarning}
    (hsys : 0 < sysView.defaultLeaseTTL ∧ sysView.defaultLeaseTTL ≤ sysView.maxLeaseTTL)
    (hdur : InInt64 sysView.maxLeaseTTL ∧ InInt64 increment ∧ InInt64 backendTTL)
    (htime : 0 ≤ now ∧ 0 ≤ startTime)
    (h : calculateTTL sysView now increment backendTTL period backendMaxTTL explicitMaxTTL
      startTime = .ok (ttl, warnings)) :
    0 < ttl ∧
      (period ≤ 0 ∧ truncateSecond now + ttl ≤
          leaseStart now startTime + effectiveMaxTTL sysView backendMaxTTL explicitMaxTTL ∨
        0 < period ∧ ttl ≤ effectiveMaxTTL sysView backendMaxTTL explicitMaxTTL ∧
          (0 < explicitMaxTTL →
            truncateSecond now + ttl ≤ leaseStart now startTime + explicitMaxTTL)) := by
  obtain ⟨hdefault, hle⟩ := hsys
  obtain ⟨hmaxFit, hinc, hbackend⟩ := hdur
  have hdefFit : InInt64 sysView.defaultLeaseTTL := by
    unfold InInt64 at *
    omega
  obtain ⟨hmaxPos, hmaxFits⟩ :=
    maxTTLOf_pos (hdefault.trans_le hle) hmaxFit backendMaxTTL explicitMaxTTL
  have hstart := leaseStart_nonneg htime.1 htime.2
  rcases hp : proposedTTL sysView increment backendTTL period explicitMaxTTL
    (leaseStart now startTime) (maxTTLOf sysView backendMaxTTL explicitMaxTTL) with
    ⟨t, w, maxValidTime⟩
  obtain ⟨hpos, hle_t, hbound⟩ := calculateTTL_eq_ok hdefault ⟨hinc, hbackend, hdefFit⟩ hmaxFits hp h
  -- what the proposal is, and the time it may not outlive
  have ht := congrArg Prod.fst hp
  have hv := congrArg (fun r => r.2.2) hp
  dsimp only at ht hv
  rw [proposedTTL_fst] at ht
  rw [proposedTTL_snd_snd] at hv
  rw [maxTTLOf_eq_effectiveMaxTTL] at ht hv hmaxPos
  refine ⟨hpos, ?_⟩
  by_cases hperiod : 0 < period
  · rw [if_pos hperiod] at ht hv
    refine .inr ⟨hperiod, by omega, fun hexplicit => ?_⟩
    rw [if_pos hexplicit] at hv
    rw [hv]
    exact hbound (by omega)
  · rw [if_neg hperiod] at hv
    refine .inl ⟨not_lt.mp hperiod, ?_⟩
    rw [hv]
    exact hbound (by omega)

/-! ## Renewals by the expiration manager

`ExpirationManager.Renew` and `RenewToken` call `CalculateTTL` with the lease's issue time as
the start, and store `LeaseOptions.ExpirationTime`, the time of the renewal plus the TTL. The
clock is read once per renewal here, at `now`; the backend's answer is an input. -/

/-- The fields of a lease entry a renewal reads and writes. -/
structure LeaseEntry where
  issueTime : ℤ
  expireTime : ℤ
deriving DecidableEq, Repr

/-- `LeaseOptions.ExpirationTime` at the time `now`: the zero time for a lease without a TTL. -/
def expirationTime (now ttl : ℤ) : ℤ := if ttl > 0 then now + ttl else 0

/-- `ExpirationManager.Renew` on a secret's lease, once the backend has answered with its TTL
and max TTL; `tokenExpireTime` is the expiration of the batch token the lease belongs to, if it
does, and a later expiration is cut to it. -/
def renew (sysView : SystemView) (now increment : ℤ) (le : LeaseEntry) (ttl maxTTL : ℤ)
    (tokenExpireTime : Option ℤ) : Go LeaseEntry := do
  let (ttl, _) ← calculateTTL sysView now increment ttl 0 maxTTL 0 le.issueTime
  let le := { le with expireTime := expirationTime now ttl }
  match tokenExpireTime with
  | some tokenExpire =>
    if le.expireTime > tokenExpire then pure { le with expireTime := tokenExpire } else pure le
  | none => pure le

/-- The TTLs a token's auth is renewed with (`logical.Auth`). -/
structure AuthTTLs where
  ttl : ℤ
  period : ℤ
  maxTTL : ℤ
  explicitMaxTTL : ℤ
deriving DecidableEq, Repr

/-- `ExpirationManager.RenewToken`, once the credential backend has answered with `auth`. -/
def renewToken (sysView : SystemView) (now increment : ℤ) (le : LeaseEntry) (auth : AuthTTLs) :
    Go LeaseEntry := do
  let (ttl, _) ← calculateTTL sysView now increment auth.ttl auth.period auth.maxTTL
    auth.explicitMaxTTL le.issueTime
  pure { le with expireTime := expirationTime now ttl }

/-- One request to renew a secret's lease: its time, the increment asked for, the TTL the
backend answers with, and the expiration of the batch token the lease belongs to. -/
structure SecretRenewal where
  now : ℤ
  increment : ℤ
  ttl : ℤ
  tokenExpireTime : Option ℤ
deriving DecidableEq, Repr

/-- A renewal at a mount with view `sysView` whose backend caps its leases at `maxTTL`; a
renewal that fails leaves the entry as it was. -/
def renewStep (sysView : SystemView) (maxTTL : ℤ) (le : LeaseEntry) (r : SecretRenewal) :
    LeaseEntry :=
  match renew sysView r.now r.increment le r.ttl maxTTL r.tokenExpireTime with
  | .ok le' => le'
  | .error _ => le

/-- A lease renewed by each request in turn. -/
def renewAll (sysView : SystemView) (maxTTL : ℤ) (le : LeaseEntry) (rs : List SecretRenewal) :
    LeaseEntry :=
  rs.foldl (renewStep sysView maxTTL) le

/-- An expiration whose TTL keeps within a bound from the truncated time ends within a second
of that bound. -/
theorem expirationTime_lt {now ttl bound : ℤ} (hpos : 0 < ttl)
    (h : truncateSecond now + ttl ≤ bound) : expirationTime now ttl < bound + second := by
  have hnow := lt_truncateSecond_add now
  unfold expirationTime
  rw [if_pos hpos]
  omega

theorem leaseStart_of_ne_zero {now startTime : ℤ} (h : startTime ≠ 0) :
    leaseStart now startTime = truncateSecond startTime := if_neg h

section Renewal

variable {sysView : SystemView} {now increment : ℤ} {le le' : LeaseEntry}

/-- A renewed secret ends within a second of its truncated issue time plus the maximum. -/
theorem renew_expireTime_lt {ttl maxTTL : ℤ} {tokenExpireTime : Option ℤ}
    (hsys : 0 < sysView.defaultLeaseTTL ∧ sysView.defaultLeaseTTL ≤ sysView.maxLeaseTTL)
    (hdur : InInt64 sysView.maxLeaseTTL ∧ InInt64 increment ∧ InInt64 ttl)
    (hnow : 0 ≤ now) (hissue : 0 < le.issueTime)
    (h : renew sysView now increment le ttl maxTTL tokenExpireTime = .ok le') :
    le'.issueTime = le.issueTime ∧
      le'.expireTime < truncateSecond le.issueTime + effectiveMaxTTL sysView maxTTL 0 + second := by
  obtain ⟨⟨ttl', warnings⟩, hcalc, h⟩ := bind_eq_ok h
  obtain ⟨hpos, hcap | hcap⟩ := calculateTTL_within_max hsys hdur ⟨hnow, hissue.le⟩ hcalc
  · rw [leaseStart_of_ne_zero hissue.ne'] at hcap
    have hexp := expirationTime_lt hpos hcap.2
    -- the cut to the batch token's expiration only moves the expiration earlier
    cases tokenExpireTime with
    | none =>
      cases h
      exact ⟨rfl, hexp⟩
    | some tokenExpire =>
      dsimp only at h
      split_ifs at h with hafter <;> cases h
      · exact ⟨rfl, by dsimp only at hafter ⊢; omega⟩
      · exact ⟨rfl, hexp⟩
  · -- `Renew` passes no period
    exact absurd hcap.1 (lt_irrefl 0)

/-- A renewed token ends within a second of its truncated issue time plus its explicit maximum,
and plus the effective maximum when it is not periodic. -/
theorem renewToken_expireTime_lt {auth : AuthTTLs}
    (hsys : 0 < sysView.defaultLeaseTTL ∧ sysView.defaultLeaseTTL ≤ sysView.maxLeaseTTL)
    (hdur : InInt64 sysView.maxLeaseTTL ∧ InInt64 increment ∧ InInt64 auth.ttl)
    (hnow : 0 ≤ now) (hissue : 0 < le.issueTime)
    (h : renewToken sysView now increment le auth = .ok le') :
    le'.issueTime = le.issueTime ∧
      (auth.period ≤ 0 → le'.expireTime < truncateSecond le.issueTime +
        effectiveMaxTTL sysView auth.maxTTL auth.explicitMaxTTL + second) ∧
      (0 < auth.explicitMaxTTL →
        le'.expireTime < truncateSecond le.issueTime + auth.explicitMaxTTL + second) := by
  obtain ⟨⟨ttl', warnings⟩, hcalc, h⟩ := bind_eq_ok h
  cases h
  obtain ⟨hpos, hcap | hcap⟩ := calculateTTL_within_max hsys hdur ⟨hnow, hissue.le⟩ hcalc <;>
    rw [leaseStart_of_ne_zero hissue.ne'] at hcap
  · -- the effective maximum is at most the explicit one
    have hexp := expirationTime_lt hpos hcap.2
    have hle : ∀ e, 0 < e → effectiveMaxTTL sysView auth.maxTTL e ≤ e := fun e he => by
      unfold effectiveMaxTTL
      split_ifs <;> omega
    refine ⟨rfl, fun _ => hexp, fun he => ?_⟩
    have hexplicit := hle _ he
    dsimp only
    omega
  · exact ⟨rfl, fun hp => absurd hcap.1 (not_lt.mpr hp),
      fun he => expirationTime_lt hpos (hcap.2.2 he)⟩

/-- One renewal leaves the entry alone or bounds its expiration. -/
theorem renewStep_cases {maxTTL : ℤ} {r : SecretRenewal}
    (hsys : 0 < sysView.defaultLeaseTTL ∧ sysView.defaultLeaseTTL ≤ sysView.maxLeaseTTL)
    (hmax : InInt64 sysView.maxLeaseTTL) (hr : 0 ≤ r.now ∧ InInt64 r.increment ∧ InInt64 r.ttl)
    (hissue : 0 < le.issueTime) :
    renewStep sysView maxTTL le r = le ∨
      (renewStep sysView maxTTL le r).issueTime = le.issueTime ∧
        (renewStep sysView maxTTL le r).expireTime <
          truncateSecond le.issueTime + effectiveMaxTTL sysView maxTTL 0 + second := by
  unfold renewStep
  split
  · next le' h => exact .inr (renew_expireTime_lt hsys ⟨hmax, hr.2⟩ hr.1 hissue h)
  · exact .inl rfl

theorem renewAll_cons (maxTTL : ℤ) (le : LeaseEntry) (r : SecretRenewal)
    (rs : List SecretRenewal) :
    renewAll sysView maxTTL le (r :: rs) = renewAll sysView maxTTL (renewStep sysView maxTTL le r) rs :=
  rfl

/-- Through any number of renewals the issue time stays, and the entry is the one it started
as or ends within a second of its truncated issue time plus the maximum. -/
theorem renewAll_expireTime {maxTTL : ℤ}
    (hsys : 0 < sysView.defaultLeaseTTL ∧ sysView.defaultLeaseTTL ≤ sysView.maxLeaseTTL)
    (hmax : InInt64 sysView.maxLeaseTTL) (rs : List SecretRenewal) (le : LeaseEntry)
    (hissue : 0 < le.issueTime) (hrs : ∀ r ∈ rs, 0 ≤ r.now ∧ InInt64 r.increment ∧ InInt64 r.ttl) :
    (renewAll sysView maxTTL le rs).issueTime = le.issueTime ∧
      (renewAll sysView maxTTL le rs = le ∨
        (renewAll sysView maxTTL le rs).expireTime <
          truncateSecond le.issueTime + effectiveMaxTTL sysView maxTTL 0 + second) := by
  -- induction on the requests, from any entry: each renewal keeps the issue time
  induction rs generalizing le with
  | nil => exact ⟨rfl, .inl rfl⟩
  | cons r rs ih =>
    rw [renewAll_cons]
    have hrest : ∀ r' ∈ rs, 0 ≤ r'.now ∧ InInt64 r'.increment ∧ InInt64 r'.ttl :=
      fun r' hr' => hrs r' (List.mem_cons_of_mem r hr')
    rcases renewStep_cases hsys hmax (hrs r List.mem_cons_self) hissue with hsame | ⟨hkeep, hbound⟩
    · rw [hsame]
      exact ih le hissue hrest
    · obtain ⟨hkeep', hrun⟩ := ih _ (hkeep ▸ hissue) hrest
      refine ⟨hkeep'.trans hkeep, .inr ?_⟩
      rcases hrun with hrun | hrun
      · rw [hrun]
        exact hbound
      · rw [← hkeep]
        exact hrun

end Renewal

/-- A mount whose leases last an hour by default and at most. -/
def hourView : SystemView := ⟨3600 * second, 3600 * second⟩

end Vault.Framework
