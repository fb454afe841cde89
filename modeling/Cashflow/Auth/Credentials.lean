import Cashflow.Auth.Jwks
import Cashflow.Lib.Json
import Cashflow.Lib.Progress
import Mathlib.Algebra.BigOperators.Fin
import Mathlib.Algebra.Order.BigOperators.Group.Finset

/-!
# Auth — the service's own access token

`internal/platform/auth/clientcredentials/source.go`: `Source.Token` hands out a
cached token, and lets one of the callers that find none request a new one
while the others wait for it. A call is a stage between two critical sections,
as in the cache of verification keys; `fetch` runs outside the lock and reads
the clock itself, before the lock is taken again.

`requests` and the moment of a return are kept for the statements only. No event
reads them.

Main results:

* `inv_exec` — what one event keeps;
* `requests_one_at_a_time` — at most one request is under way, no call makes two,
  and a successful request is not followed by another before its token is nearly
  over;
* `returned_token_issued` — a token is handed out as the endpoint issued it, and
  not close to its end but by the call that requested it;
* `calls_come_to_rest` — the calls end after a bounded number of events.
-/

namespace Cashflow.Auth.Credentials

open Lib

/-! ## The endpoint's answer -/

/-- How `fetch` fails; the cause of `request` is the error of the client. -/
inductive FetchError where
  /-- "clientcredentials: build token request" -/
  | build
  /-- "clientcredentials: request token: %w" -/
  | request (cause : Text)
  /-- "clientcredentials: token endpoint returned status %d" -/
  | status (code : Nat)
  /-- "clientcredentials: decode token response" -/
  | decode
  /-- "clientcredentials: token response is incomplete" -/
  | incomplete
deriving DecidableEq, Repr

/-- What comes of a request; `body` is what arrives of it. -/
inductive Response where
  | unbuilt
  | failed (cause : Text)
  | answered (status : Nat) (body : List UInt8)
deriving DecidableEq, Repr

def maxTokenResponseBytes : Nat := 65536

structure TokenBody where
  accessToken : Text
  tokenType : Text
  expiresIn : Int64
deriving DecidableEq, Repr

def TokenBody.ofMembers (ms : List (Text × Json)) : Option TokenBody := do
  let accessToken ← (Json.field "access_token".toList ms).foldlM Json.decodeText []
  let tokenType ← (Json.field "token_type".toList ms).foldlM Json.decodeText []
  let expiresIn ← (Json.field "expires_in".toList ms).foldlM Json.decodeInt64 0
  some { accessToken, tokenType, expiresIn }

/-- `Decoder.Decode`: the first value of the body; what follows it is not looked at. -/
def decodeBody (body : List UInt8) : Option TokenBody :=
  let text := runes (body.take maxTokenResponseBytes)
  match Json.parseValue (text.length + 1) text with
  | some (.obj ms, _) => TokenBody.ofMembers ms
  | some (.null, _) => TokenBody.ofMembers []
  | _ => none

/-- `strings.EqualFold` with a name of ASCII letters. -/
def equalFold (value name : Text) : Bool := value.map Json.foldChar == name.map Json.foldChar

/-- The end of `fetch`: the token and when it expires. The product of the seconds
is one of `time.Duration` and wraps. -/
def accept (now : Time) (body : TokenBody) : Except FetchError (Text × Time) :=
  if body.accessToken = [] ∨ equalFold body.tokenType "Bearer".toList = false ∨
      body.expiresIn ≤ 0 then .error .incomplete
  else .ok (body.accessToken, now + (body.expiresIn * 1000000000).toInt)

/-- `Source.fetch`, with the clock it reads once the body is decoded. -/
def fetch (now : Time) : Response → Except FetchError (Text × Time)
  | .unbuilt => .error .build
  | .failed cause => .error (.request cause)
  | .answered status body =>
    if status ≠ 200 then .error (.status status)
    else
      match decodeBody body with
      | none => .error .decode
      | some decoded => accept now decoded

/-- A token that was issued is not empty. -/
theorem fetch_ok {now : Time} {response : Response} {token : Text} {expires : Time}
    (h : fetch now response = .ok (token, expires)) : token ≠ [] := by
  unfold fetch accept at h
  split at h
  · cases h
  · cases h
  · split at h
    · cases h
    · split at h
      · cases h
      · split at h
        · cases h
        · rename_i hComplete
          cases h
          exact fun hNil => hComplete (.inl hNil)

/-! ## The source and its callers -/

structure Config where
  tokenEndpoint : Text
  clientID : Text
  clientSecret : Text
  refreshSkew : Int
deriving DecidableEq, Repr

/-- The parts of an URL that `New` looks at. -/
structure Url where
  scheme : Text
  host : Text

/-- `New`, with how URLs are parsed: the skew the source works with. -/
def new (parse : Text → Option Url) (config : Config) : Except Text Nat :=
  if config.tokenEndpoint = [] ∨ config.clientID = [] ∨ config.clientSecret = [] then
    .error
      "clientcredentials: token endpoint, client id and client secret are required".toList
  else
    match parse config.tokenEndpoint with
    | some ⟨scheme, host⟩ =>
      if scheme ≠ "https".toList ∨ host = [] then
        .error "clientcredentials: token endpoint must be an absolute HTTPS URL".toList
      else if config.refreshSkew < 0 then
        .error "clientcredentials: refresh skew cannot be negative".toList
      -- no skew stands for the default of 30 seconds
      else .ok (if config.refreshSkew = 0 then 30 * second else config.refreshSkew.toNat)
    | none => .error "clientcredentials: token endpoint must be an absolute HTTPS URL".toList

/-- What the mutex protects. -/
structure Source where
  token : Text
  expires : Time
  /-- The channel that the request under way will close. -/
  refresh : Option Nat
  lastErr : Option FetchError

inductive CallError where
  /-- The caller's context ended while it waited. -/
  | context
  | fetch (cause : FetchError)
deriving DecidableEq, Repr

/-- The claim of a request: the channel it will close, and the clock at the claim. -/
structure Claim where
  done : Nat
  moment : Time
deriving DecidableEq, Repr

/-- Where a call of `Token` stands between two of its critical sections. -/
inductive Stage where
  | idle
  /-- At the top of the loop. -/
  | looping
  /-- Waiting for another caller's request. -/
  | waiting (done : Nat)
  /-- Inside `fetch`. -/
  | fetching (claim : Claim)
  /-- `fetch` has read the clock and the response; the lock is not taken again yet. -/
  | fetched (claim : Claim) (reading : Time) (response : Response)
  /-- Returned, at this moment of the clock. -/
  | returned (result : Except CallError Text) (moment : Time)
deriving DecidableEq

/-- The claim of a call that has a request under way. -/
def Stage.claim : Stage → Option Claim
  | .fetching c => some c
  | .fetched c _ _ => some c
  | _ => none

/-- A request that is over. -/
structure Request (n : Nat) where
  caller : Fin n
  claimed : Time
  reading : Time
  response : Response

def Request.outcome {n : Nat} (r : Request n) : Except FetchError (Text × Time) :=
  fetch r.reading r.response

structure World (n : Nat) where
  clock : Time
  source : Source
  calls : Fin n → Stage
  closed : List Nat
  channels : Nat
  /-- The requests that are over, in that order. -/
  requests : List (Request n)

def World.initial {n : Nat} (clock : Time) : World n :=
  ⟨clock, ⟨[], 0, none, none⟩, fun _ => .idle, [], 0, []⟩

/-- One critical section or wait of one call, or a step of the world around them. -/
inductive Event (n : Nat) where
  | tick (clock : Time)
  | call (i : Fin n)
  | enter (i : Fin n)
  | respond (i : Fin n) (response : Response)
  | store (i : Fin n)
  | wake (i : Fin n)
  | cancel (i : Fin n)

namespace World

variable {n : Nat} (w : World n)

def setCall (i : Fin n) (stage : Stage) : World n :=
  { w with calls := Function.update w.calls i stage }

/-- The stage that was set. -/
@[simp] theorem setCall_self (i : Fin n) (stage : Stage) : (w.setCall i stage).calls i = stage := by
  simp [setCall]

/-- And those of the other calls. -/
theorem setCall_of_ne {i j : Fin n} (h : j ≠ i) (stage : Stage) :
    (w.setCall i stage).calls j = w.calls j := by
  simp [setCall, h]

variable {w} in
/-- What a call is doing after one of them has moved. -/
theorem setCall_cases {i j : Fin n} {stage s : Stage} (h : (w.setCall i stage).calls j = s) :
    (j = i ∧ stage = s) ∨ (j ≠ i ∧ w.calls j = s) := by
  by_cases hj : j = i
  · rw [hj, setCall_self] at h
    exact .inl ⟨hj, h⟩
  · rw [setCall_of_ne _ hj] at h
    exact .inr ⟨hj, h⟩

/-- The token can be handed out. -/
def usable (skew : Nat) : Bool := w.source.token ≠ [] && w.clock + skew < w.source.expires

/-- The claim of a request: a channel is made, and everyone else waits for it. -/
def claim (i : Fin n) : World n :=
  { w.setCall i (.fetching ⟨w.channels, w.clock⟩) with
    source := { w.source with refresh := some w.channels }
    channels := w.channels + 1 }

/-- The critical section at the top of the loop. -/
def enter (skew : Nat) (i : Fin n) : World n :=
  if w.usable skew then w.setCall i (.returned (.ok w.source.token) w.clock)
  else
    match w.source.refresh with
    | some done => w.setCall i (.waiting done)
    | none => w.claim i

/-- The critical section after `fetch`, and the return behind it. -/
def store (i : Fin n) (c : Claim) (reading : Time) (response : Response) : World n :=
  let result := fetch reading response
  { w.setCall i (.returned ((result.mapError .fetch).map Prod.fst) w.clock) with
    source :=
      match result with
      | .ok (token, expires) => ⟨token, expires, none, none⟩
      | .error err => ⟨w.source.token, w.source.expires, none, some err⟩
    closed := c.done :: w.closed
    requests := w.requests ++ [⟨i, c.moment, reading, response⟩] }

end World

/-- The machine. An event that is not enabled changes nothing. -/
def exec {n : Nat} (skew : Nat) (w : World n) : Event n → World n
  -- the clock does not go back
  | .tick clock => if w.clock ≤ clock then { w with clock := clock } else w
  | .call i =>
    match w.calls i with
    | .idle => w.setCall i .looping
    | _ => w
  | .enter i =>
    match w.calls i with
    | .looping => w.enter skew i
    | _ => w
  | .respond i response =>
    match w.calls i with
    -- the time is read after the answer has arrived
    | .fetching c => w.setCall i (.fetched c w.clock response)
    | _ => w
  | .store i =>
    match w.calls i with
    | .fetched c reading response => w.store i c reading response
    | _ => w
  | .wake i =>
    match w.calls i with
    -- a closed channel wakes all who wait on it
    | .waiting done => if done ∈ w.closed then w.setCall i .looping else w
    | _ => w
  | .cancel i =>
    -- a request under way that is cancelled fails, and is answered with an error
    match w.calls i with
    | .waiting _ => w.setCall i (.returned (.error .context) w.clock)
    | _ => w

/-! ## What an event does -/

section Cases

variable {n : Nat} {skew : Nat} {w : World n}

/-- The event moves a call on. -/
def World.enabled (w : World n) : Event n → Bool
  | .tick _ => false
  | .call i => match w.calls i with | .idle => true | _ => false
  | .enter i => match w.calls i with | .looping => true | _ => false
  | .respond i _ => match w.calls i with | .fetching _ => true | _ => false
  | .store i => match w.calls i with | .fetched .. => true | _ => false
  | .wake i => match w.calls i with | .waiting done => decide (done ∈ w.closed) | _ => false
  | .cancel i => match w.calls i with | .waiting _ => true | _ => false

/-- The moves of a call outside the two critical sections. -/
inductive Quiet (w : World n) : Stage → Stage → Prop
  | call : Quiet w .idle .looping
  | respond (c : Claim) (response : Response) :
      Quiet w (.fetching c) (.fetched c w.clock response)
  | wake (done : Nat) (hClosed : done ∈ w.closed) : Quiet w (.waiting done) .looping
  | cancel (done : Nat) : Quiet w (.waiting done) (.returned (.error .context) w.clock)

variable (skew) in
/-- An event that moves a call is a quiet move or a critical section. -/
theorem exec_enabled {e : Event n} (h : w.enabled e = true) :
    (∃ i stage, Quiet w (w.calls i) stage ∧ exec skew w e = w.setCall i stage) ∨
    (∃ i, w.calls i = .looping ∧ exec skew w e = w.enter skew i) ∨
    ∃ i c reading response, w.calls i = .fetched c reading response ∧
      exec skew w e = w.store i c reading response := by
  -- each event is for one stage of a call, and enabled there only
  cases e with
  | tick clock => cases h
  | call i =>
    rw [World.enabled] at h
    split at h
    · rename_i hStage
      exact .inl ⟨i, .looping, hStage ▸ .call, by simp only [exec, hStage]⟩
    · cases h
  | enter i =>
    rw [World.enabled] at h
    split at h
    · rename_i hStage
      exact .inr (.inl ⟨i, hStage, by simp only [exec, hStage]⟩)
    · cases h
  | respond i response =>
    rw [World.enabled] at h
    split at h
    · rename_i c hStage
      exact .inl ⟨i, .fetched c w.clock response, hStage ▸ .respond c response,
        by simp only [exec, hStage]⟩
    · cases h
  | store i =>
    rw [World.enabled] at h
    split at h
    · rename_i c reading response hStage
      exact .inr (.inr ⟨i, c, reading, response, hStage, by simp only [exec, hStage]⟩)
    · cases h
  | wake i =>
    rw [World.enabled] at h
    split at h
    · rename_i done hStage
      -- a waiter goes on once the channel it waits on is closed
      have hClosed := of_decide_eq_true h
      exact .inl ⟨i, .looping, hStage ▸ .wake done hClosed,
        by simp only [exec, hStage, if_pos hClosed]⟩
    · cases h
  | cancel i =>
    rw [World.enabled] at h
    split at h
    · rename_i done hStage
      exact .inl ⟨i, .returned (.error .context) w.clock, hStage ▸ .cancel done,
        by simp only [exec, hStage]⟩
    · cases h

variable (skew) in
/-- Any other event lets time pass at most. -/
theorem exec_not_enabled {e : Event n} (h : w.enabled e = false) :
    ∃ clock, w.clock ≤ clock ∧ exec skew w e = { w with clock := clock } := by
  -- out of its stage an event is ignored
  have hSame : exec skew w e = w → ∃ clock, w.clock ≤ clock ∧
      exec skew w e = { w with clock := clock } := fun hw => ⟨w.clock, Int.le_refl _, hw⟩
  cases e with
  | tick clock =>
    by_cases hLe : w.clock ≤ clock
    · exact ⟨clock, hLe, if_pos hLe⟩
    · exact hSame (if_neg hLe)
  | wake i =>
    -- the one event that waits for something besides its stage
    refine hSame ?_
    rw [World.enabled] at h
    rw [exec]
    split
    · rename_i done hStage
      simp only [hStage] at h
      exact if_neg (of_decide_eq_false h)
    · rfl
  | call i | enter i | respond i response | store i | cancel i =>
    refine hSame ?_
    rw [World.enabled] at h
    rw [exec]
    split
    · rename_i hStage
      simp only [hStage] at h
      cases h
    · rfl

end Cases

/-! ## The invariant -/

section Safety

variable {n : Nat} {skew : Nat} {w : World n}

/-- A request was over, and so nearly was the token it brought, when another was
claimed at `moment`. -/
def Request.Before (skew : Nat) (r : Request n) (moment : Time) : Prop :=
  r.claimed ≤ moment ∧
    ∀ token expires, r.outcome = .ok (token, expires) → expires ≤ moment + skew

/-- A token that a call may have returned at `moment`. -/
def Handed (skew : Nat) (requests : List (Request n)) (i : Fin n) (token : Text)
    (moment : Time) : Prop :=
  ∃ r ∈ requests, ∃ expires, r.outcome = .ok (token, expires) ∧
    (r.caller = i ∨ moment + skew < expires)

structure Inv (skew : Nat) (w : World n) : Prop where
  -- the request under way
  flight : ∀ i c, (w.calls i).claim = some c →
    w.source.refresh = some c.done ∧ ∀ r ∈ w.requests, r.Before skew c.moment
  alone : ∀ i j, (w.calls i).claim ≠ none → (w.calls j).claim ≠ none → i = j
  refresh : ∀ done, w.source.refresh = some done →
    ∃ i c, (w.calls i).claim = some c ∧ c.done = done
  claimed : ∀ i c, (w.calls i).claim = some c → c.moment ≤ w.clock
  -- the channels
  waits : ∀ i done, w.calls i = .waiting done → done ∈ w.closed ∨ w.source.refresh = some done
  opened : ∀ done, w.source.refresh = some done → done ∉ w.closed ∧ done < w.channels
  closed : ∀ done ∈ w.closed, done < w.channels
  -- the requests that are over
  callers : ∀ r ∈ w.requests, ∃ result moment, w.calls r.caller = .returned result moment
  once : (w.requests.map Request.caller).Nodup
  spaced : w.requests.Pairwise fun r later => r.Before skew later.claimed
  -- the tokens
  token : w.source.token ≠ [] →
    ∃ r ∈ w.requests, r.outcome = .ok (w.source.token, w.source.expires)
  stale : ∀ r ∈ w.requests, r.Before skew w.clock ∨
    r.outcome = .ok (w.source.token, w.source.expires) ∧ r.claimed ≤ w.clock
  handed : ∀ i token moment, w.calls i = .returned (.ok token) moment →
    Handed skew w.requests i token moment

/-- The invariant holds before any call. -/
theorem inv_initial (clock : Time) : Inv skew (World.initial clock : World n) where
  flight := fun _ _ h => nomatch h
  alone := fun _ _ h => absurd rfl h
  refresh := fun _ h => nomatch h
  claimed := fun _ _ h => nomatch h
  waits := fun _ _ h => nomatch h
  opened := fun _ h => nomatch h
  closed := fun _ h => nomatch h
  callers := fun _ h => nomatch h
  once := List.nodup_nil
  spaced := List.Pairwise.nil
  token := fun h => absurd rfl h
  stale := fun _ h => nomatch h
  handed := fun _ _ _ h => nomatch h

/-- What was over at a moment is over later. -/
theorem Request.Before.mono {r : Request n} {moment later : Time} (h : r.Before skew moment)
    (hLe : moment ≤ later) : r.Before skew later :=
  ⟨Int.le_trans h.1 hLe, fun token expires hIssued =>
    Int.le_trans (h.2 token expires hIssued) (Int.add_le_add_right hLe _)⟩

/-- The clock may go on. -/
theorem tick_inv {clock : Time} (hInv : Inv skew w) (hLe : w.clock ≤ clock) :
    Inv skew { w with clock := clock } where
  flight := hInv.flight
  alone := hInv.alone
  refresh := hInv.refresh
  claimed := fun i c h => Int.le_trans (hInv.claimed i c h) hLe
  waits := hInv.waits
  opened := hInv.opened
  closed := hInv.closed
  callers := hInv.callers
  once := hInv.once
  spaced := hInv.spaced
  token := hInv.token
  stale := fun r hr => (hInv.stale r hr).imp (·.mono hLe) fun h => ⟨h.1, Int.le_trans h.2 hLe⟩
  handed := hInv.handed

/-- The requests that are over are of calls that have returned. -/
theorem callers_setCall {i : Fin n} (stage : Stage) (hInv : Inv skew w)
    (hOpen : ∀ result moment, w.calls i ≠ .returned result moment) :
    ∀ r ∈ w.requests, r.caller ≠ i ∧
      ∃ result moment, (w.setCall i stage).calls r.caller = .returned result moment := by
  intro r hr
  obtain ⟨result, moment, hReturned⟩ := hInv.callers r hr
  have hne : r.caller ≠ i := fun h => hOpen result moment (h ▸ hReturned)
  exact ⟨hne, result, moment, by rw [World.setCall_of_ne _ hne, hReturned]⟩

/-- A call that has not returned goes on, its claim as it was. -/
theorem setCall_inv {i : Fin n} {stage : Stage} (hInv : Inv skew w)
    (hOpen : ∀ result moment, w.calls i ≠ .returned result moment)
    (hClaim : stage.claim = (w.calls i).claim)
    (hWaits : ∀ done, stage = .waiting done → done ∈ w.closed ∨ w.source.refresh = some done)
    (hHanded : ∀ token moment, stage = .returned (.ok token) moment →
      Handed skew w.requests i token moment) : Inv skew (w.setCall i stage) := by
  -- the claims are as they were
  have hSame : ∀ j, ((w.setCall i stage).calls j).claim = (w.calls j).claim := by
    intro j
    by_cases hj : j = i
    · rw [hj, World.setCall_self, hClaim]
    · rw [World.setCall_of_ne _ hj]
  constructor
  case flight => exact fun j c h => hInv.flight j c (hSame j ▸ h)
  case alone => exact fun j k hj hk => hInv.alone j k (hSame j ▸ hj) (hSame k ▸ hk)
  case refresh =>
    intro done h
    obtain ⟨j, c, hj, hc⟩ := hInv.refresh done h
    exact ⟨j, c, (hSame j).trans hj, hc⟩
  case claimed => exact fun j c h => hInv.claimed j c (hSame j ▸ h)
  case waits =>
    intro j done h
    rcases World.setCall_cases h with ⟨-, hStage⟩ | ⟨-, h⟩
    · exact hWaits done hStage
    · exact hInv.waits j done h
  case opened => exact hInv.opened
  case closed => exact hInv.closed
  case callers => exact fun r hr => (callers_setCall _ hInv hOpen r hr).2
  case once => exact hInv.once
  case spaced => exact hInv.spaced
  case token => exact hInv.token
  case stale => exact hInv.stale
  case handed =>
    intro j token moment h
    rcases World.setCall_cases h with ⟨rfl, hStage⟩ | ⟨-, h⟩
    · exact hHanded token moment hStage
    · exact hInv.handed j token moment h

/-- A request is claimed when none is under way and the token is nearly over. -/
theorem claim_inv {i : Fin n} (hInv : Inv skew w)
    (hOpen : ∀ result moment, w.calls i ≠ .returned result moment)
    (hRefresh : w.source.refresh = none) (hUsable : w.usable skew = false) :
    Inv skew (w.claim i) := by
  -- there was no request under way, so the new one is the only claim
  have hClaims : ∀ j c, ((w.claim i).calls j).claim = some c →
      j = i ∧ c = ⟨w.channels, w.clock⟩ := by
    intro j c h
    rcases World.setCall_cases (rfl : (w.setCall i _).calls j = _) with ⟨hj, hStage⟩ | ⟨-, hStage⟩
    · rw [World.claim, ← hStage] at h
      exact ⟨hj, (Option.some.inj h).symm⟩
    · rw [World.claim, ← hStage] at h
      rw [(hInv.flight j c h).1] at hRefresh
      cases hRefresh
  have hBefore : ∀ r ∈ w.requests, r.Before skew w.clock := by
    intro r hr
    rcases hInv.stale r hr with hBefore | ⟨hOutcome, hClaimed⟩
    · exact hBefore
    -- the token still held was not handed out, so it is nearly over
    refine ⟨hClaimed, fun token expires hIssued => ?_⟩
    rw [hOutcome] at hIssued
    cases hIssued
    have hToken : w.source.token ≠ [] := fetch_ok hOutcome
    simpa [World.usable, hToken] using hUsable
  constructor
  case flight =>
    intro j c h
    obtain ⟨-, rfl⟩ := hClaims j c h
    exact ⟨rfl, hBefore⟩
  case alone =>
    intro j k hj hk
    obtain ⟨c, hc⟩ := Option.ne_none_iff_exists'.mp hj
    obtain ⟨c', hc'⟩ := Option.ne_none_iff_exists'.mp hk
    rw [(hClaims j c hc).1, (hClaims k c' hc').1]
  case refresh =>
    intro done h
    cases h
    exact ⟨i, ⟨w.channels, w.clock⟩, by rw [World.claim, World.setCall_self]; rfl, rfl⟩
  case claimed =>
    intro j c h
    obtain ⟨-, rfl⟩ := hClaims j c h
    exact Int.le_refl _
  case waits =>
    intro j done h
    rcases World.setCall_cases h with ⟨-, hStage⟩ | ⟨-, h⟩
    · cases hStage
    · refine .inl ((hInv.waits j done h).resolve_right ?_)
      rw [hRefresh]
      exact nofun
  case opened =>
    intro done h
    cases h
    exact ⟨fun hMem => Nat.lt_irrefl _ (hInv.closed _ hMem), Nat.lt_succ_self _⟩
  case closed => exact fun done h => Nat.lt_succ_of_lt (hInv.closed done h)
  case callers => exact fun r hr => (callers_setCall _ hInv hOpen r hr).2
  case once => exact hInv.once
  case spaced => exact hInv.spaced
  case token => exact hInv.token
  case stale => exact hInv.stale
  case handed =>
    intro j token moment h
    rcases World.setCall_cases h with ⟨-, hStage⟩ | ⟨-, h⟩
    · cases hStage
    · exact hInv.handed j token moment h

/-- Entering the loop a call takes the token, waits, or claims the request. -/
theorem enter_inv {i : Fin n} (hInv : Inv skew w) (hStage : w.calls i = .looping) :
    Inv skew (w.enter skew i) := by
  have hOpen : ∀ result moment, w.calls i ≠ .returned result moment := by
    rw [hStage]
    exact nofun
  have hClaim : (w.calls i).claim = none := by
    rw [hStage]
    rfl
  unfold World.enter
  split
  · -- the token held is good for longer than the skew
    rename_i hUsable
    rw [World.usable, Bool.and_eq_true, decide_eq_true_eq, decide_eq_true_eq] at hUsable
    refine setCall_inv hInv hOpen hClaim.symm nofun ?_
    rintro token moment ⟨⟩
    obtain ⟨r, hr, hOutcome⟩ := hInv.token hUsable.1
    exact ⟨r, hr, w.source.expires, hOutcome, .inr hUsable.2⟩
  · -- another call is asking for one
    rename_i hUsable
    split
    · rename_i done hRefresh
      refine setCall_inv hInv hOpen hClaim.symm ?_ nofun
      rintro _ ⟨⟩
      exact .inr hRefresh
    · rename_i hRefresh
      exact claim_inv hInv hOpen hRefresh (Bool.eq_false_iff.mpr hUsable)

/-- The outcome of a request is stored, and its channel closed. -/
theorem store_inv {i : Fin n} {c : Claim} {reading : Time} {response : Response}
    (hInv : Inv skew w) (hStage : w.calls i = .fetched c reading response) :
    Inv skew (w.store i c reading response) := by
  have hOpen : ∀ result moment, w.calls i ≠ .returned result moment := by
    rw [hStage]
    exact nofun
  have hClaim : (w.calls i).claim = some c := by
    rw [hStage]
    rfl
  obtain ⟨hRefresh, hBefore⟩ := hInv.flight i c hClaim
  have hClaimed := hInv.claimed i c hClaim
  -- it was the only request, so no claim is left
  have hNone : ∀ j, ((w.store i c reading response).calls j).claim = none := by
    intro j
    rcases World.setCall_cases (rfl : (w.setCall i _).calls j = _) with ⟨-, hs⟩ | ⟨hj, hs⟩
    · rw [World.store, ← hs]
      rfl
    · rw [World.store, ← hs]
      by_contra hOther
      refine hj (hInv.alone j i hOther ?_)
      rw [hClaim]
      exact nofun
  constructor
  case flight => exact fun j c' h => by rw [hNone j] at h; cases h
  case alone => exact fun j _ hj _ => absurd (hNone j) hj
  case refresh =>
    intro done h
    unfold World.store at h
    dsimp only at h
    split at h <;> cases h
  case claimed => exact fun j c' h => by rw [hNone j] at h; cases h
  case waits =>
    -- the waiters of this request are released by the closing of its channel
    intro j done h
    rcases World.setCall_cases h with ⟨-, hs⟩ | ⟨-, h⟩
    · cases hs
    · rcases hInv.waits j done h with hMem | hSame
      · exact .inl (List.mem_cons_of_mem _ hMem)
      · rw [hRefresh, Option.some.injEq] at hSame
        exact .inl (hSame ▸ List.mem_cons_self)
  case opened =>
    intro done h
    unfold World.store at h
    dsimp only at h
    split at h <;> cases h
  case closed =>
    intro done h
    rcases List.mem_cons.mp h with rfl | h
    · exact (hInv.opened _ hRefresh).2
    · exact hInv.closed done h
  case callers =>
    intro r hr
    rcases List.mem_append.mp hr with hr | hr
    · exact (callers_setCall _ hInv hOpen r hr).2
    · rw [List.mem_singleton.mp hr]
      exact ⟨_, _, World.setCall_self ..⟩
  case once =>
    rw [World.store, List.map_append]
    refine List.nodup_append.mpr ⟨hInv.once, List.nodup_singleton _, ?_⟩
    intro a ha b hb
    obtain ⟨r, hr, rfl⟩ := List.mem_map.mp ha
    rw [List.mem_singleton.mp hb]
    exact (callers_setCall .idle hInv hOpen r hr).1
  case spaced =>
    refine List.pairwise_append.mpr ⟨hInv.spaced, List.pairwise_singleton _ _, ?_⟩
    intro r hr later hLater
    rw [List.mem_singleton.mp hLater]
    exact hBefore r hr
  case token =>
    -- a failed request leaves the token of before
    intro hToken
    cases hResult : fetch reading response with
    | ok issued =>
      refine ⟨⟨i, c.moment, reading, response⟩, List.mem_append_right _ List.mem_cons_self, ?_⟩
      simp only [World.store, hResult, Request.outcome]
    | error err =>
      simp only [World.store, hResult] at hToken ⊢
      obtain ⟨r, hr, hOutcome⟩ := hInv.token hToken
      exact ⟨r, List.mem_append_left _ hr, hOutcome⟩
  case stale =>
    intro r hr
    rcases List.mem_append.mp hr with hr | hr
    · exact .inl ((hBefore r hr).mono hClaimed)
    · rw [List.mem_singleton.mp hr]
      cases hResult : fetch reading response with
      | ok issued =>
        refine .inr ⟨?_, hClaimed⟩
        simp only [World.store, hResult, Request.outcome]
      | error err =>
        refine .inl ⟨hClaimed, fun token expires hIssued => ?_⟩
        rw [Request.outcome, hResult] at hIssued
        cases hIssued
  case handed =>
    intro j token moment h
    rcases World.setCall_cases h with ⟨hj, hs⟩ | ⟨-, h⟩
    · -- the caller returns its own token
      cases hResult : fetch reading response with
      | ok issued =>
        rw [hResult] at hs
        cases hs
        exact ⟨⟨i, c.moment, reading, response⟩, List.mem_append_right _ List.mem_cons_self,
          issued.2, hResult, .inl hj.symm⟩
      | error err =>
        rw [hResult] at hs
        cases hs
    · obtain ⟨r, hr, hHanded⟩ := hInv.handed j token moment h
      exact ⟨r, List.mem_append_left _ hr, hHanded⟩

/-- A quiet step touches neither the source nor the requests. -/
theorem quiet_inv {i : Fin n} {stage : Stage} (hInv : Inv skew w)
    (h : Quiet w (w.calls i) stage) : Inv skew (w.setCall i stage) := by
  generalize hStage : w.calls i = old at h
  cases h with
  | call | respond | wake | cancel =>
    refine setCall_inv hInv ?_ ?_ nofun nofun <;> rw [hStage]
    · exact nofun
    · rfl

/-- Every event keeps the invariant. -/
theorem inv_exec (hInv : Inv skew w) (e : Event n) : Inv skew (exec skew w e) := by
  cases hEnabled : w.enabled e with
  | false =>
    obtain ⟨clock, hLe, hExec⟩ := exec_not_enabled skew hEnabled
    rw [hExec]
    exact tick_inv hInv hLe
  | true =>
    obtain ⟨i, stage, hQuiet, hExec⟩ | ⟨i, hStage, hExec⟩ | ⟨i, c, reading, response, hStage, hExec⟩ :=
      exec_enabled skew hEnabled
    · rw [hExec]
      exact quiet_inv hInv hQuiet
    · rw [hExec]
      exact enter_inv hInv hStage
    · rw [hExec]
      exact store_inv hInv hStage

/-- And so does every run. -/
theorem inv_run (clock : Time) (events : List (Event n)) :
    Inv skew (run (exec skew) (World.initial clock) events) :=
  run_invariant' (Inv skew) (fun _ e h => inv_exec h e) events _ (inv_initial clock)

/-- Whatever the callers do and the endpoint answers: one request is under way at
a time, no call makes two, and every call that waits does so for the request
under way or is free to go on. A request that brought a token is not followed by
another until the token is within the skew of its end. -/
theorem requests_one_at_a_time (skew : Nat) (clock : Time) (events : List (Event n)) :
    let w := run (exec skew) (World.initial clock) events
    (∀ i j, (w.calls i).claim ≠ none → (w.calls j).claim ≠ none → i = j) ∧
    (w.requests.map Request.caller).Nodup ∧
    (∀ i done, w.calls i = .waiting done →
      done ∈ w.closed ∨ ∃ j c, (w.calls j).claim = some c ∧ c.done = done) ∧
    w.requests.Pairwise (fun r later => r.Before skew later.claimed) ∧
    ∀ i c, (w.calls i).claim = some c → ∀ r ∈ w.requests, r.caller ≠ i ∧ r.Before skew c.moment := by
  intro w
  have hInv : Inv skew w := inv_run clock events
  refine ⟨hInv.alone, hInv.once, fun i done h => ?_, hInv.spaced, fun i c h r hr => ⟨?_, ?_⟩⟩
  · exact (hInv.waits i done h).imp_right (hInv.refresh done)
  · rintro rfl
    obtain ⟨result, moment, hReturned⟩ := hInv.callers r hr
    rw [hReturned] at h
    cases h
  · exact (hInv.flight i c h).2 r hr

/-- A token that a call returns was issued in a complete response to a request
that is over: to the call's own, or to one whose token was then further than the
skew from its end. -/
theorem returned_token_issued (skew : Nat) (clock : Time) (events : List (Event n))
    (i : Fin n) (token : Text) (moment : Time)
    (h : (run (exec skew) (World.initial clock) events).calls i = .returned (.ok token) moment) :
    token ≠ [] ∧ ∃ r ∈ (run (exec skew) (World.initial clock) events).requests, ∃ expires,
      fetch r.reading r.response = .ok (token, expires) ∧
      (r.caller = i ∨ moment + skew < expires) := by
  obtain ⟨r, hr, expires, hOutcome, hCaller⟩ := (inv_run clock events).handed i token moment h
  exact ⟨fetch_ok hOutcome, r, hr, expires, hOutcome, hCaller⟩

/-- A token for a minute. -/
def minuteToken : Response :=
  .answered 200 (utf8 ("\x7b\"access_token\":\"t\",".toList ++
    "\"token_type\":\"bearer\",\"expires_in\":60\x7d".toList))

/-- One call requests a token, a second one arrives ten seconds later. -/
def secondCallLater : List (Event 2) :=
  [.call 0, .enter 0, .respond 0 minuteToken, .store 0, .tick (10 * second), .call 1, .enter 1]

/-- A second call that is served the token of the first. -/
theorem returned_token_issued_cached :
    ∃ r ∈ (run (exec (30 * second)) (World.initial 0) secondCallLater).requests, ∃ expires,
      fetch r.reading r.response = .ok ("t".toList, expires) ∧
      (r.caller = 1 ∨ (10 * second : Int) + (30 * second : Nat) < expires) :=
  (returned_token_issued (30 * second) 0 secondCallLater 1 "t".toList (10 * second)
    (by decide +kernel)).2

end Safety

/-! ## Coming to rest -/

section Rest

variable {n : Nat} {skew : Nat} {w : World n}

/-- The caller does not give up. -/
def Event.forward : Event n → Bool
  | .cancel _ => false
  | _ => true

/-- What a call may still cost before the next request is over. -/
def Stage.weight (closed : List Nat) : Stage → Nat
  | .idle => 5
  | .waiting done => if done ∈ closed then 4 else 0
  | .looping => 3
  | .fetching _ => 2
  | .fetched .. => 1
  | .returned .. => 0

/-- The end of a call pays for waking up all the others. -/
def Stage.price (n : Nat) (closed : List Nat) (stage : Stage) : Nat :=
  stage.weight closed + match stage with | .returned .. => 0 | _ => 4 * n + 1

def World.measure (w : World n) : Nat := ∑ i, (w.calls i).price n w.closed

/-- A call goes on to a cheaper stage while the others stay where they are. -/
theorem measure_setCall {i : Fin n} (stage : Stage)
    (h : stage.price n w.closed < (w.calls i).price n w.closed) :
    (w.setCall i stage).measure < w.measure := by
  refine Finset.sum_lt_sum (fun j _ => ?_) ⟨i, Finset.mem_univ i, ?_⟩
  · rcases World.setCall_cases (rfl : (w.setCall i stage).calls j = _) with ⟨rfl, hs⟩ | ⟨-, hs⟩
    · rw [← hs]
      exact Nat.le_of_lt h
    · rw [← hs]
      exact Nat.le_refl _
  · rw [World.setCall_self]
    exact h

/-- A waiting call becomes dearer when its channel is closed, by no more than a
round of the loop. -/
theorem price_cons (done : Nat) (closed : List Nat) (stage : Stage) :
    stage.price n (done :: closed) ≤ stage.price n closed + 4 := by
  cases stage with
  | waiting d =>
    simp only [Stage.price, Stage.weight]
    split <;> split <;> omega
  | _ => simp [Stage.price, Stage.weight]

/-- The end of a request may wake every waiter, which its own price covers. -/
theorem measure_store {i : Fin n} {c : Claim} {reading : Time} {response : Response}
    (hStage : w.calls i = .fetched c reading response) :
    (w.store i c reading response).measure < w.measure := by
  have hEach : ∀ j ∈ Finset.univ,
      ((w.store i c reading response).calls j).price n (c.done :: w.closed) +
        (if i = j then 4 * n + 2 else 0) ≤ (w.calls j).price n w.closed + 4 := by
    -- the caller pays for the others: four for each that is waiting
    intro j _
    by_cases hj : i = j
    · subst hj
      rw [World.store, World.setCall_self, hStage, if_pos rfl]
      simp only [Stage.price, Stage.weight]
      omega
    · rw [World.store, World.setCall_of_ne _ (Ne.symm hj), if_neg hj]
      exact price_cons ..
  have hSum := Finset.sum_le_sum hEach
  rw [Finset.sum_add_distrib, Finset.sum_add_distrib, Finset.sum_ite_eq,
    if_pos (Finset.mem_univ i), Finset.sum_const, Finset.card_univ, Fintype.card_fin,
    smul_eq_mul] at hSum
  have hMeasure : (w.store i c reading response).measure =
      ∑ j, ((w.store i c reading response).calls j).price n (c.done :: w.closed) := rfl
  rw [hMeasure, World.measure]
  omega

/-- A quiet step goes down by itself. -/
theorem measure_quiet {i : Fin n} {stage : Stage} (h : Quiet w (w.calls i) stage) :
    (w.setCall i stage).measure < w.measure := by
  refine measure_setCall _ ?_
  generalize w.calls i = old at h
  cases h with
  | call | respond | cancel => simp [Stage.price, Stage.weight]
  | wake done hClosed => simp [Stage.price, Stage.weight, hClosed]

/-- And so does entering the loop. -/
theorem measure_enter (hInv : Inv skew w) {i : Fin n} (hStage : w.calls i = .looping) :
    (w.enter skew i).measure < w.measure := by
  unfold World.enter
  split
  · refine measure_setCall _ ?_
    rw [hStage]
    simp [Stage.price, Stage.weight]
  · split
    · rename_i done hRefresh
      refine measure_setCall _ ?_
      rw [hStage]
      simp [Stage.price, Stage.weight, (hInv.opened done hRefresh).1]
    · refine measure_setCall (.fetching _) ?_
      rw [hStage]
      simp [Stage.price, Stage.weight]

/-- So every move goes down. -/
theorem measure_enabled (hInv : Inv skew w) {e : Event n} (h : w.enabled e = true) :
    (exec skew w e).measure < w.measure := by
  obtain ⟨i, stage, hQuiet, hExec⟩ | ⟨i, hStage, hExec⟩ | ⟨i, c, reading, response, hStage, hExec⟩ :=
    exec_enabled skew h
  · rw [hExec]
    exact measure_quiet hQuiet
  · rw [hExec]
    exact measure_enter hInv hStage
  · rw [hExec]
    exact measure_store hStage

/-- As long as a call has not returned, some call can go on. -/
theorem exists_forward (hInv : Inv skew w) {i : Fin n}
    (hOpen : ∀ result moment, w.calls i ≠ .returned result moment) :
    ∃ e : Event n, e.forward = true ∧ w.enabled e = true := by
  -- a request under way can be answered, and its answer stored
  have hRequest : ∀ j c, (w.calls j).claim = some c →
      ∃ e : Event n, e.forward = true ∧ w.enabled e = true := by
    intro j c hClaim
    cases hStage : w.calls j with
    | fetching c' => exact ⟨.respond j .unbuilt, rfl, by simp [World.enabled, hStage]⟩
    | fetched c' reading response => exact ⟨.store j, rfl, by simp [World.enabled, hStage]⟩
    | _ => rw [hStage] at hClaim; cases hClaim
  cases hStage : w.calls i with
  | idle => exact ⟨.call i, rfl, by simp [World.enabled, hStage]⟩
  | looping => exact ⟨.enter i, rfl, by simp [World.enabled, hStage]⟩
  | waiting done =>
    -- its channel is closed, or someone is going to close it
    rcases hInv.waits i done hStage with hClosed | hRefresh
    · exact ⟨.wake i, rfl, by simp [World.enabled, hStage, hClosed]⟩
    · obtain ⟨j, c, hClaim, -⟩ := hInv.refresh done hRefresh
      exact hRequest j c hClaim
  | fetching c => exact hRequest i c (by rw [hStage]; rfl)
  | fetched c reading response => exact hRequest i c (by rw [hStage]; rfl)
  | returned result moment => exact absurd hStage (hOpen result moment)

/-- Calls come to rest: `n` of them move no more than `n * (4 * n + 6)` times in any
order of events, whatever the endpoint answers, and they stop only once all have
returned, even if none is cancelled. -/
theorem calls_come_to_rest (skew : Nat) (clock : Time) (events : List (Event n)) :
    moved (exec skew) (fun w e => w.enabled e = true) (World.initial clock : World n) events ≤
      n * (4 * n + 6) ∧
    ((∀ e : Event n, e.forward = true →
        (run (exec skew) (World.initial clock) events).enabled e = false) →
      ∀ i, ∃ result moment,
        (run (exec skew) (World.initial clock) events).calls i = .returned result moment) := by
  constructor
  · have hBound := moved_le (exec skew) (fun w e => w.enabled e = true)
      (Inv skew) World.measure (fun _ e h => inv_exec h e) (fun _ _ h hMove => measure_enabled h hMove)
      (fun w e _ hRest => by
        obtain ⟨clock, -, hExec⟩ := exec_not_enabled skew (Bool.eq_false_iff.mpr hRest)
        rw [hExec]
        exact Nat.le_refl _)
      events (World.initial clock) (inv_initial clock)
    -- each call starts at the top price
    have hStart : (World.initial clock : World n).measure = n * (4 * n + 6) := by
      have hPrice : ∀ i ∈ Finset.univ,
          ((World.initial clock : World n).calls i).price n [] = 4 * n + 6 := by
        intro i _
        simp only [World.initial, Stage.price, Stage.weight]
        omega
      exact (Finset.sum_const_nat hPrice).trans (by rw [Finset.card_univ, Fintype.card_fin])
    omega
  · intro hRest i
    by_contra hOpen
    push Not at hOpen
    obtain ⟨e, hForward, hEnabled⟩ := exists_forward (inv_run clock events) hOpen
    rw [hRest e hForward] at hEnabled
    cases hEnabled

end Rest

end Cashflow.Auth.Credentials
