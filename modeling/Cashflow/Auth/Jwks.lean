import Cashflow.Lib.Machine
import Cashflow.Lib.Text
import Mathlib.Logic.Function.Basic

/-!
# Auth — the cache of verification keys

`internal/platform/auth/jwks.go`: `VerificationKey` and the three critical
sections it is made of (`snapshot`, `claimRefresh` and the end of `refresh`).
Any number of calls run at once; between two critical sections of one call the
others may do anything, so a call is a stage and the whole is a machine whose
events are single critical sections, clock readings and waits.

The fetch itself happens outside the lock. What it returns is an input of the
event that ends it: any key set, or an error. Times are nanoseconds counted
from the zero `time.Time`; the three intervals are lengths of time.

`starts` and `installs` are kept for the statements only. No event reads them.
-/

namespace Cashflow.Auth

open Lib

/-- A `time.Time`; `IsZero` is equality with zero. -/
abbrev Time := Int

def second : Nat := 1000000000

def defaultJWKSRefreshInterval : Nat := 15 * 60 * second
def defaultJWKSMinInterval : Nat := 30 * second
def defaultJWKSStaleTolerance : Nat := 30 * 60 * second

structure JWKSConfig where
  endpoint : Text
  refreshInterval : Nat
  minInterval : Nat
  staleTolerance : Nat

/-- `NewJWKSCache`: an absent endpoint is an error, an absent interval its default. -/
def newJWKSCache (config : JWKSConfig) : Except Text JWKSConfig :=
  if config.endpoint = [] then .error "auth: JWKS endpoint is required".toList
  else .ok
    { config with
      refreshInterval :=
        if config.refreshInterval = 0 then defaultJWKSRefreshInterval else config.refreshInterval
      minInterval :=
        if config.minInterval = 0 then defaultJWKSMinInterval else config.minInterval
      staleTolerance :=
        if config.staleTolerance = 0 then defaultJWKSStaleTolerance else config.staleTolerance }

/-! ## What the lock protects -/

structure JWKSCache (K : Type) where
  keys : Text → Option K
  fetchedAt : Time
  lastAttempt : Time
  /-- The channel that the refresh in flight will close. -/
  refreshDone : Option Nat
  lastRefreshError : Option Text

def JWKSCache.empty {K : Type} : JWKSCache K := ⟨fun _ => none, 0, 0, none, none⟩

/-- `claimRefresh` with `done` the channel it makes; nothing when a refresh is in flight. -/
def claimRefresh {K : Type} (c : JWKSCache K) (now : Time) (done : Nat) :
    Option (JWKSCache K) :=
  match c.refreshDone with
  | some _ => none
  | none => some { c with refreshDone := some done, lastAttempt := now }

/-- The critical section that ends `refresh`, after the fetch gave `outcome`. -/
def refresh {K : Type} (c : JWKSCache K) (fetchedAt : Time) (done : Nat)
    (outcome : Except Text (Text → Option K)) : JWKSCache K :=
  let c := match outcome with
    | .ok keys => { c with keys := keys, fetchedAt := fetchedAt, lastRefreshError := none }
    | .error err => { c with lastRefreshError := some err }
  if c.refreshDone = some done then { c with refreshDone := none } else c

/-! ## A call of `VerificationKey` -/

inductive CallError
  /-- The caller's context ended while it waited. -/
  | context
  /-- "auth: cached JWKS exceeded its stale tolerance" -/
  | staleToleranceExceeded
  /-- "auth: key id %q is unknown and refresh is rate limited" -/
  | rateLimited (keyID : Text)
  /-- "auth: refresh JWKS: %w" -/
  | refreshFailed (err : Text)
  /-- "auth: key id %q is not published by the identity provider" -/
  | notPublished (keyID : Text)

/-- Where a call stands between two of its critical sections. -/
inductive Stage (K : Type)
  /-- At the top of the loop. -/
  | looping
  /-- The clock is read, the snapshot not yet taken. -/
  | timed
  /-- A stale key will be returned once a background refresh was tried. -/
  | serving (cached : K)
  /-- Waiting for another caller's refresh. -/
  | waiting (done : Nat)
  /-- About to claim a refresh of its own. -/
  | claiming
  /-- Inside its own refresh. -/
  | refreshing
  /-- Its own refresh has ended; the keys are not read yet. -/
  | refreshed
  | returned (result : Except CallError K)

structure Call (K : Type) where
  keyID : Text
  /-- How many key sets had been installed when the call began. -/
  began : Nat
  /-- The clock reading of the current round of the loop. -/
  now : Time
  stage : Stage K

/-- `refreshDue`. -/
def refreshDue (config : JWKSConfig) (now lastAttempt : Time) : Bool :=
  lastAttempt = 0 || config.minInterval ≤ now - lastAttempt

/-- No usable key was found: wait, give up or claim. -/
def miss {K : Type} (config : JWKSConfig) (keyID : Text) (now : Time) (known : Bool)
    (lastAttempt : Time) (refreshing : Option Nat) : Stage K :=
  match refreshing with
  | some done => .waiting done
  | none =>
    if refreshDue config now lastAttempt then .claiming
    else .returned (.error (if known then .staleToleranceExceeded else .rateLimited keyID))

/-- What a call does with its snapshot. -/
def afterSnapshot {K : Type} (config : JWKSConfig) (keyID : Text) (now : Time)
    (cached : Option K) (fetchedAt lastAttempt : Time) (refreshing : Option Nat) : Stage K :=
  let age := now - fetchedAt
  match cached with
  | none => miss config keyID now false lastAttempt refreshing
  | some key =>
    -- fresh
    if fetchedAt ≠ 0 ∧ age < config.refreshInterval then .returned (.ok key)
    -- within the stale tolerance
    else if fetchedAt ≠ 0 ∧ age ≤ config.refreshInterval + config.staleTolerance then
      if refreshing = none ∧ refreshDue config now lastAttempt = true then .serving key
      else .returned (.ok key)
    else miss config keyID now true lastAttempt refreshing

/-! ## The machine -/

/-- A fetch from the claim of its refresh on. -/
structure Fetch where
  /-- The clock reading its caller passed to `claimRefresh`. -/
  reading : Time
  /-- The clock when the claim was made. -/
  moment : Time
  done : Nat
  /-- The call that runs it, or none when it runs in the background. -/
  caller : Option Nat
  deriving DecidableEq

/-- A key set the cache has held, and the clock when its refresh was claimed. -/
structure Install (K : Type) where
  keys : Text → Option K
  claimed : Time

structure World (K : Type) where
  clock : Time
  cache : JWKSCache K
  calls : Nat → Option (Call K)
  fetches : List Fetch
  closed : List Nat
  channels : Nat
  /-- Every fetch started, in the order of their claims. -/
  starts : List Fetch
  /-- Every key set installed, in that order. -/
  installs : List (Install K)

def World.initial {K : Type} (clock : Time) : World K :=
  ⟨clock, .empty, fun _ => none, [], [], 0, [], []⟩

/-- One critical section, clock reading or wait of one call, or a step of the
world around them. -/
inductive Event (K : Type)
  | tick (clock : Time)
  | call (i : Nat) (keyID : Text)
  | now (i : Nat)
  | snapshot (i : Nat)
  | claim (i : Nat)
  /-- The fetch that will close `done` ends. -/
  | complete (done : Nat) (outcome : Except Text (Text → Option K))
  | wake (i : Nat)
  | cancel (i : Nat)
  | look (i : Nat)

namespace World

variable {K : Type} (w : World K)

def setCall (i : Nat) (c : Call K) : World K :=
  { w with calls := Function.update w.calls i (some c) }

/-- Let call `i`, if there is one, go on to the stage `next` gives. -/
def proceed (i : Nat) (next : Call K → Call K) : World K :=
  match w.calls i with
  | none => w
  | some c => w.setCall i (next c)

def readClock (c : Call K) : Call K :=
  match c.stage with
  | .looping => { c with now := w.clock, stage := .timed }
  | _ => c

def takeSnapshot (config : JWKSConfig) (c : Call K) : Call K :=
  match c.stage with
  | .timed =>
    { c with
      stage := afterSnapshot config c.keyID c.now (w.cache.keys c.keyID) w.cache.fetchedAt
        w.cache.lastAttempt w.cache.refreshDone }
  | _ => c

/-- The channel a call waits on was closed, so it goes round the loop again. -/
def awake (c : Call K) : Call K :=
  match c.stage with
  | .waiting done => if done ∈ w.closed then { c with stage := .looping } else c
  | _ => c

def giveUp (c : Call K) : Call K :=
  match c.stage with
  | .waiting _ => { c with stage := .returned (.error .context) }
  | _ => c

/-- The read of the keys after a call's own refresh. -/
def readKeys (c : Call K) : Call K :=
  match c.stage with
  | .refreshed =>
    { c with
      -- an error of the refresh is reported before the key is looked for
      stage := .returned (match w.cache.lastRefreshError with
        | some err => .error (.refreshFailed err)
        | none => match w.cache.keys c.keyID with
          | some key => .ok key
          | none => .error (.notPublished c.keyID)) }
  | _ => c

/-- Claim a refresh for call `i`, which goes on to `claimed` or to `lost`. -/
def tryClaim (i : Nat) (c : Call K) (caller : Option Nat) (claimed lost : Stage K) : World K :=
  match claimRefresh w.cache c.now w.channels with
  -- another call refreshes, or it is too early for one
  | none => w.setCall i { c with stage := lost }
  | some cache =>
    let fetch : Fetch := ⟨c.now, w.clock, w.channels, caller⟩
    { w.setCall i { c with stage := claimed } with
      cache := cache
      channels := w.channels + 1
      fetches := w.fetches ++ [fetch]
      starts := w.starts ++ [fetch] }

def claim (i : Nat) : World K :=
  match w.calls i with
  | none => w
  | some c =>
    match c.stage with
    -- the key is returned whether or not the background refresh was claimed
    | .serving key => w.tryClaim i c none (.returned (.ok key)) (.returned (.ok key))
    | .claiming => w.tryClaim i c (some i) .refreshing .looping
    | _ => w

def ownRefreshEnded (c : Call K) : Call K :=
  match c.stage with
  | .refreshing => { c with stage := .refreshed }
  | _ => c

/-- The fetch `f` has ended and its outcome is installed; its caller has not gone on yet. -/
def ended (f : Fetch) (outcome : Except Text (Text → Option K)) : World K :=
  { w with
    cache := refresh w.cache f.reading f.done outcome
    fetches := w.fetches.filter (·.done ≠ f.done)
    closed := if w.cache.refreshDone = some f.done then f.done :: w.closed else w.closed
    installs := match outcome with
      | .ok keys => w.installs ++ [⟨keys, f.moment⟩]
      | .error _ => w.installs }

def complete (done : Nat) (outcome : Except Text (Text → Option K)) : World K :=
  match w.fetches.find? (·.done = done) with
  | none => w
  | some f =>
    match f.caller with
    | none => w.ended f outcome
    | some i => (w.ended f outcome).proceed i ownRefreshEnded

end World

/-- The machine. An event that is not enabled changes nothing. -/
def exec {K : Type} (config : JWKSConfig) (w : World K) : Event K → World K
  | .tick clock => if w.clock ≤ clock then { w with clock := clock } else w
  | .call i keyID =>
    match w.calls i with
    -- a call is made once
    | some _ => w
    | none => w.setCall i ⟨keyID, w.installs.length, w.clock, .looping⟩
  | .now i => w.proceed i w.readClock
  | .snapshot i => w.proceed i (w.takeSnapshot config)
  | .claim i => w.claim i
  | .complete done outcome => w.complete done outcome
  | .wake i => w.proceed i w.awake
  | .cancel i => w.proceed i World.giveUp
  | .look i => w.proceed i w.readKeys

end Cashflow.Auth
