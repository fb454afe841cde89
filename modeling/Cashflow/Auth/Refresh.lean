import Cashflow.Auth.Jwks
import Mathlib.Data.List.Chain
import Mathlib.Tactic.Linarith

/-!
# Auth — which key a call returns, and how often keys are fetched

A refresh is claimed under the lock only when none is in flight, so at most one
ever is. That alone makes every served key accountable: the key set in the
cache is always the one of the last successful refresh, and its `fetchedAt` is
never later than the clock at that refresh's claim.

The rate limit is another matter. `refreshDue` is evaluated on the snapshot,
and `claimRefresh` does not evaluate it again: two calls whose snapshots
precede both claims each start a fetch, the second as soon as the first ends.

Main results:

* `inv_exec`, `inv_run` — the invariant, through one event and through a run;
* `returned_key_was_current` — a returned key was in a set the cache held
  during the call, and that set is not over age;
* `fetches_spaced_iff` — fetches are spaced exactly in the runs whose claims
  would still pass the rate limit when they are made;
* `forged_ids_fetch_twice` — two calls that fetch at one clock reading.
-/

namespace Cashflow.Auth

open Lib

variable {K : Type} {config : JWKSConfig} {w : World K}

/-! ## The invariant -/

/-- The key set in force after `installs`. -/
def currentKeys (installs : List (Install K)) : Text → Option K :=
  match installs.getLast? with
  | none => fun _ => none
  | some install => install.keys

/-- Some set the cache held since the call began binds its key id to `key`, and
was claimed no longer than the two intervals before the call's clock reading. -/
def Held (config : JWKSConfig) (installs : List (Install K)) (c : Call K) (key : K) : Prop :=
  ∃ install ∈ installs.drop (c.began - 1), install.keys c.keyID = some key ∧
    c.now - install.claimed ≤ config.refreshInterval + config.staleTolerance

structure CallOk (config : JWKSConfig) (w : World K) (c : Call K) : Prop where
  began : c.began ≤ w.installs.length
  now : c.now ≤ w.clock
  key : ∀ key, c.stage = .serving key ∨ c.stage = .returned (.ok key) →
    Held config w.installs c key
  -- a call inside or just after its own refresh read the clock before every claim in flight
  flight : c.stage = .refreshing ∨ c.stage = .refreshed → ∀ f ∈ w.fetches, c.now ≤ f.moment
  own : c.stage = .refreshed → w.cache.lastRefreshError = none →
    ∃ install, w.installs.getLast? = some install ∧ c.now ≤ install.claimed

structure Inv (config : JWKSConfig) (w : World K) : Prop where
  flight : (w.fetches = [] ∧ w.cache.refreshDone = none) ∨
    ∃ f, w.fetches = [f] ∧ w.cache.refreshDone = some f.done
  reading : ∀ f ∈ w.fetches, f.reading ≤ f.moment
  keys : w.cache.keys = currentKeys w.installs
  fetchedAt : ∀ install, w.installs.getLast? = some install → w.cache.fetchedAt ≤ install.claimed
  calls : ∀ i c, w.calls i = some c → CallOk config w c

/-- The invariant holds before any call. -/
theorem inv_initial (clock : Time) : Inv config (World.initial clock : World K) where
  flight := .inl ⟨rfl, rfl⟩
  reading := fun _ hf => nomatch hf
  keys := rfl
  fetchedAt := fun _ h => nomatch h
  calls := fun _ _ h => nomatch h

/-- The set in force lies among those held since the call began. -/
theorem current_held {installs : List (Install K)} {c : Call K} {install : Install K} {key : K}
    (hBegan : c.began ≤ installs.length) (hLast : installs.getLast? = some install)
    (hKey : install.keys c.keyID = some key)
    (hAge : c.now - install.claimed ≤ config.refreshInterval + config.staleTolerance) :
    Held config installs c key := by
  refine ⟨install, ?_, hKey, hAge⟩
  have hPos : 0 < installs.length := by
    rw [List.length_pos_iff]
    rintro rfl
    cases hLast
  rw [List.getLast?_eq_getElem?] at hLast
  obtain ⟨hLt, hGet⟩ := List.getElem?_eq_some_iff.mp hLast
  rw [List.mem_drop_iff_getElem]
  refine ⟨installs.length - 1 - (c.began - 1), by omega, ?_⟩
  rw [← hGet]
  congr 1
  omega

/-- Sets installed later do not take a held key away. -/
theorem Held.append {installs : List (Install K)} {c : Call K} {key : K}
    (h : Held config installs c key) (hBegan : c.began ≤ installs.length)
    (later : List (Install K)) : Held config (installs ++ later) c key := by
  obtain ⟨install, hMem, hKey⟩ := h
  refine ⟨install, ?_, hKey⟩
  rw [List.drop_append_of_le_length (by omega)]
  exact List.mem_append_left _ hMem

/-! ## Events of one call -/

/-- It is kept when one call goes on to a stage that is right. -/
theorem setCall_inv {i : Nat} {c : Call K} (hInv : Inv config w) (hCall : CallOk config w c) :
    Inv config (w.setCall i c) := by
  refine ⟨hInv.flight, hInv.reading, hInv.keys, hInv.fetchedAt, fun j c' h => ?_⟩
  have h : Function.update w.calls i (some c) j = some c' := h
  have hOk : CallOk config w c' := by
    by_cases hj : j = i
    · subst hj
      rw [Function.update_self] at h
      cases h
      exact hCall
    · rw [Function.update_of_ne hj] at h
      exact hInv.calls j c' h
  exact ⟨hOk.began, hOk.now, hOk.key, hOk.flight, hOk.own⟩

/-- In particular when a call that is under way takes a step of its own. -/
theorem proceed_inv {i : Nat} {next : Call K → Call K} (hInv : Inv config w)
    (hNext : ∀ c, CallOk config w c → CallOk config w (next c)) :
    Inv config (w.proceed i next) := by
  unfold World.proceed
  split
  · exact hInv
  · next c hc => exact setCall_inv hInv (hNext c (hInv.calls i c hc))

/-- A call that goes on to a stage without a key, outside its own refresh, keeps its account. -/
theorem CallOk.plain {c : Call K} {stage : Stage K} (h : CallOk config w c)
    (hStage : (∀ key, stage ≠ .serving key ∧ stage ≠ .returned (.ok key)) ∧
      stage ≠ .refreshing ∧ stage ≠ .refreshed) : CallOk config w { c with stage := stage } := by
  obtain ⟨hKey, hRefreshing, hRefreshed⟩ := hStage
  refine ⟨h.began, h.now, ?_, ?_, fun h' => absurd h' hRefreshed⟩
  · rintro key (h' | h')
    · exact absurd h' (hKey key).1
    · exact absurd h' (hKey key).2
  · rintro (h' | h')
    · exact absurd h' hRefreshing
    · exact absurd h' hRefreshed

/-- A call that goes on to serve or return a held key keeps its account. -/
theorem CallOk.hold {c : Call K} {stage : Stage K} {key : K} (h : CallOk config w c)
    (hStage : stage = .serving key ∨ stage = .returned (.ok key))
    (hHeld : Held config w.installs c key) : CallOk config w { c with stage := stage } := by
  refine ⟨h.began, h.now, ?_, ?_, ?_⟩
  · intro key' h'
    have hSame : key' = key := by
      rcases hStage with rfl | rfl <;> rcases h' with h' | h' <;> cases h' <;> rfl
    rw [hSame]
    exact hHeld
  · rcases hStage with rfl | rfl <;> rintro (h' | h') <;> cases h'
  · rcases hStage with rfl | rfl <;> rintro ⟨⟩

/-- Reading the clock is such a step. -/
theorem readClock_ok {c : Call K} (h : CallOk config w c) : CallOk config w (w.readClock c) := by
  unfold World.readClock
  split
  · refine ⟨h.began, le_rfl, ?_, ?_, ?_⟩
    · rintro key (h' | h') <;> cases h'
    · rintro (h' | h') <;> cases h'
    · rintro ⟨⟩
  · exact h

/-- A call that found no key holds none and does not claim to have made a fetch itself. -/
theorem miss_plain (keyID : Text) (now : Time) (known : Bool) (lastAttempt : Time)
    (refreshing : Option Nat) :
    let stage : Stage K := miss config keyID now known lastAttempt refreshing
    (∀ key, stage ≠ .serving key ∧ stage ≠ .returned (.ok key)) ∧
      stage ≠ .refreshing ∧ stage ≠ .refreshed := by
  unfold miss
  split
  · simp
  · split <;> simp

/-- What the snapshot shows is the set in force, with `fetchedAt` at most its claim. -/
theorem takeSnapshot_ok {c : Call K} (hInv : Inv config w) (h : CallOk config w c) :
    CallOk config w (w.takeSnapshot config c) := by
  unfold World.takeSnapshot
  -- only a call that has read the clock takes the snapshot
  split
  swap
  · exact h
  unfold afterSnapshot
  dsimp only
  split
  · exact h.plain (miss_plain _ _ _ _ _)
  · next key hKey =>
    -- `fetchedAt` is at most the claim, so the age the code computes bounds the age by the claim
    have hHeld : c.now - w.cache.fetchedAt ≤ config.refreshInterval + config.staleTolerance →
        Held config w.installs c key := by
      intro hAge
      rw [hInv.keys, currentKeys] at hKey
      cases hLast : w.installs.getLast? with
      | none =>
        rw [hLast] at hKey
        cases hKey
      | some install =>
        rw [hLast] at hKey
        have hFetched := hInv.fetchedAt install hLast
        exact current_held h.began hLast hKey (by linarith)
    split
    · -- fresh
      next hFresh => exact h.hold (.inr rfl) (hHeld (by
        have hAge := hFresh.2
        have hTolerance : (0 : Int) ≤ config.staleTolerance := Int.natCast_nonneg _
        linarith))
    · split
      · -- stale within the tolerance: served, with a refresh on the side if one is due
        next hStale =>
        split
        · exact h.hold (.inl rfl) (hHeld hStale.2)
        · exact h.hold (.inr rfl) (hHeld hStale.2)
      · exact h.plain (miss_plain _ _ _ _ _)

/-- Being woken is such a step. -/
theorem awake_ok {c : Call K} (h : CallOk config w c) : CallOk config w (w.awake c) := by
  unfold World.awake
  split
  · split
    · exact h.plain (by simp)
    · exact h
  · exact h

/-- And so is the cancellation of the caller. -/
theorem giveUp_ok {c : Call K} (h : CallOk config w c) : CallOk config w (World.giveUp c) := by
  unfold World.giveUp
  split
  · exact h.plain (by simp)
  · exact h

/-- After its own refresh a call reads the set of the last refresh that ended,
which was claimed after the call read the clock. -/
theorem readKeys_ok {c : Call K} (hInv : Inv config w) (h : CallOk config w c) :
    CallOk config w (w.readKeys c) := by
  unfold World.readKeys
  split
  swap
  · exact h
  next hStage =>
  cases hErr : w.cache.lastRefreshError with
  | some err => exact h.plain (by simp)
  | none =>
    obtain ⟨install, hLast, hNow⟩ := h.own hStage hErr
    cases hKey : w.cache.keys c.keyID with
    | none => exact h.plain (by simp)
    | some key =>
      rw [hInv.keys, currentKeys, hLast] at hKey
      have hIntervals : (0 : Int) ≤ config.refreshInterval + config.staleTolerance := by positivity
      exact h.hold (.inr rfl) (current_held h.began hLast hKey (by linarith))

/-! ## Claims and completions -/

/-- A claim succeeds when no fetch is under way, and records itself. -/
theorem claimRefresh_some {c c' : JWKSCache K} {now : Time} {done : Nat}
    (h : claimRefresh c now done = some c') :
    c.refreshDone = none ∧ c' = { c with refreshDone := some done, lastAttempt := now } := by
  unfold claimRefresh at h
  split at h
  · cases h
  · next hNone =>
    cases h
    exact ⟨hNone, rfl⟩

/-- A claim puts the only fetch in flight, at a moment no call has read past. -/
theorem tryClaim_inv {i : Nat} {c : Call K} {caller : Option Nat} {claimed lost : Stage K}
    (hInv : Inv config w) (hc : CallOk config w c)
    (hClaimed : CallOk config w { c with stage := claimed } ∨ claimed = .refreshing)
    (hLost : CallOk config w { c with stage := lost }) :
    Inv config (w.tryClaim i c caller claimed lost) := by
  unfold World.tryClaim
  split
  · exact setCall_inv hInv hLost
  · next cache hClaim =>
    obtain ⟨hNone, rfl⟩ := claimRefresh_some hClaim
    have hEmpty : w.fetches = [] := by
      rcases hInv.flight with h | ⟨f, _, h⟩
      · exact h.1
      · rw [hNone] at h
        cases h
    refine ⟨.inr ⟨_, by rw [hEmpty]; rfl, rfl⟩, ?_, hInv.keys, hInv.fetchedAt, ?_⟩
    · intro f hf
      have hf : f ∈ w.fetches ++ [(⟨c.now, w.clock, w.channels, caller⟩ : Fetch)] := hf
      rw [hEmpty, List.nil_append, List.mem_singleton] at hf
      subst hf
      exact hc.now
    · -- every call read the clock at most now, which is the claim's moment
      intro j c' h
      have h : Function.update w.calls i (some { c with stage := claimed }) j = some c' := h
      have hFlight : c'.now ≤ w.clock → ∀ f ∈ w.fetches ++
          [(⟨c.now, w.clock, w.channels, caller⟩ : Fetch)], c'.now ≤ f.moment := by
        intro hNow f hf
        rw [hEmpty, List.nil_append, List.mem_singleton] at hf
        subst hf
        exact hNow
      -- the claiming call is in a new stage, every other one is as it was
      have hAny : CallOk config w c' ∨
          (c'.stage = .refreshing ∧ c'.began = c.began ∧ c'.now = c.now) := by
        by_cases hj : j = i
        · subst hj
          rw [Function.update_self] at h
          cases h
          rcases hClaimed with hOk | rfl
          · exact .inl hOk
          · exact .inr ⟨rfl, rfl, rfl⟩
        · rw [Function.update_of_ne hj] at h
          exact .inl (hInv.calls j c' h)
      rcases hAny with hOk | ⟨hStage, hBegan, hNow⟩
      · exact ⟨hOk.began, hOk.now, hOk.key, fun _ => hFlight hOk.now, hOk.own⟩
      · refine ⟨hBegan ▸ hc.began, hNow ▸ hc.now, ?_, fun _ => hFlight (hNow ▸ hc.now), ?_⟩
        · rintro key (h' | h') <;> rw [hStage] at h' <;> cases h'
        · intro h'
          rw [hStage] at h'
          cases h'

/-- A claim keeps the invariant, from either stage that makes one. -/
theorem claim_inv (i : Nat) (hInv : Inv config w) : Inv config (w.claim i) := by
  unfold World.claim
  split
  · exact hInv
  next c hCall =>
  have hc := hInv.calls i c hCall
  split
  · next key hStage =>
    have hOk := hc.hold (.inr rfl) (hc.key key (.inl hStage))
    exact tryClaim_inv hInv hc (.inl hOk) hOk
  · exact tryClaim_inv hInv hc (.inr rfl) (hc.plain (by simp))
  · exact hInv

/-- What the end of a fetch does: nothing if it is not under way, else it ends, and the call that
made it goes on. -/
theorem complete_cases (done : Nat) (outcome : Except Text (Text → Option K)) :
    w.complete done outcome = w ∨ ∃ f ∈ w.fetches,
      w.complete done outcome = w.ended f outcome ∨
        ∃ i, w.complete done outcome = (w.ended f outcome).proceed i World.ownRefreshEnded := by
  unfold World.complete
  split
  · exact .inl rfl
  · next f hFind =>
    have hDone : f.done = done := by simpa using List.find?_some hFind
    subst hDone
    refine .inr ⟨f, List.mem_of_find?_eq_some hFind, ?_⟩
    split
    · exact .inl rfl
    · next i _ => exact .inr ⟨i, rfl⟩

/-- A fetch that ends leaves none in flight. -/
theorem ended_flight {f : Fetch} (outcome : Except Text (Text → Option K))
    (hInv : Inv config w) (hf : f ∈ w.fetches) :
    (w.ended f outcome).fetches = [] ∧ (w.ended f outcome).cache.refreshDone = none := by
  rcases hInv.flight with ⟨hNil, _⟩ | ⟨f', hOne, hDone⟩
  · rw [hNil] at hf
    cases hf
  · rw [hOne, List.mem_singleton] at hf
    subst hf
    refine ⟨by simp [World.ended, hOne], ?_⟩
    cases outcome <;> simp [World.ended, refresh, hDone]

/-- A fetch that fails leaves keys and time, and records its error. -/
@[simp] theorem refresh_error (c : JWKSCache K) (at' : Time) (done : Nat) (err : Text) :
    (refresh c at' done (.error err)).keys = c.keys ∧
      (refresh c at' done (.error err)).fetchedAt = c.fetchedAt ∧
      (refresh c at' done (.error err)).lastRefreshError = some err := by
  unfold refresh
  dsimp only
  split <;> exact ⟨rfl, rfl, rfl⟩

/-- A fetch that succeeds replaces both. -/
@[simp] theorem refresh_ok (c : JWKSCache K) (at' : Time) (done : Nat) (keys : Text → Option K) :
    (refresh c at' done (.ok keys)).keys = keys ∧
      (refresh c at' done (.ok keys)).fetchedAt = at' ∧
      (refresh c at' done (.ok keys)).lastRefreshError = none := by
  unfold refresh
  dsimp only
  split <;> exact ⟨rfl, rfl, rfl⟩

/-- The end of a fetch keeps the invariant, whatever it brought. -/
theorem ended_inv {f : Fetch} (outcome : Except Text (Text → Option K)) (hInv : Inv config w)
    (hf : f ∈ w.fetches) : Inv config (w.ended f outcome) := by
  obtain ⟨hFetches, hDone⟩ := ended_flight outcome hInv hf
  have hNone : ∀ g ∈ (w.ended f outcome).fetches, False := by simp [hFetches]
  -- no fetch is under way afterwards, so what is said of those is empty
  refine ⟨.inl ⟨hFetches, hDone⟩, fun g hg => (hNone g hg).elim, ?_, ?_, ?_⟩
  · -- the keys
    cases outcome with
    | error err => exact (refresh_error w.cache f.reading f.done err).1.trans hInv.keys
    | ok keys => simp [World.ended, currentKeys]
  · -- the time of the fetch
    cases outcome with
    | error err =>
      intro install hLast
      exact (refresh_error w.cache f.reading f.done err).2.1.trans_le (hInv.fetchedAt install hLast)
    | ok keys =>
      intro install hLast
      have hLast : (w.installs ++ [(⟨keys, f.moment⟩ : Install K)]).getLast? = some install := hLast
      rw [List.getLast?_concat] at hLast
      cases hLast
      exact (refresh_ok w.cache f.reading f.done keys).2.1.trans_le (hInv.reading f hf)
  · intro i c hCall
    have hc := hInv.calls i c hCall
    refine ⟨?_, hc.now, ?_, fun _ g hg => (hNone g hg).elim, ?_⟩
    · -- each call, whose own fetch this may have been
      cases outcome with
      | error err => exact hc.began
      | ok keys => exact hc.began.trans (by simp [World.ended])
    · intro key hKey
      cases outcome with
      | error err => exact hc.key key hKey
      | ok keys => exact (hc.key key hKey).append hc.began _
    · intro hStage hErr
      cases outcome with
      | error err =>
        rw [show (w.ended f (.error err)).cache.lastRefreshError = some err from
          (refresh_error w.cache f.reading f.done err).2.2] at hErr
        cases hErr
      | ok keys =>
        -- the fetch a call waited for began after the call read the clock
        exact ⟨⟨keys, f.moment⟩, List.getLast?_concat, hc.flight (.inr hStage) f hf⟩

/-- A call whose refresh ended finds, unless it failed, a set claimed after its clock reading. -/
theorem ended_own {f : Fetch} {outcome : Except Text (Text → Option K)} {c : Call K} {i : Nat}
    (hInv : Inv config w) (hf : f ∈ w.fetches) (hCall : w.calls i = some c) :
    CallOk config (w.ended f outcome) (World.ownRefreshEnded c) := by
  have hc := hInv.calls i c hCall
  have hc' := (ended_inv outcome hInv hf).calls i c hCall
  unfold World.ownRefreshEnded
  split
  swap
  · exact hc'
  next hStage =>
  refine ⟨hc'.began, hc'.now, ?_, fun _ => hc'.flight (.inl hStage), fun _ hErr => ?_⟩
  · rintro key (h' | h') <;> cases h'
  · cases outcome with
    | error err =>
      rw [show (w.ended f (.error err)).cache.lastRefreshError = some err from
        (refresh_error w.cache f.reading f.done err).2.2] at hErr
      cases hErr
    | ok keys => exact ⟨⟨keys, f.moment⟩, List.getLast?_concat, hc.flight (.inl hStage) f hf⟩

/-- And so does what its caller does then. -/
theorem complete_inv (done : Nat) (outcome : Except Text (Text → Option K))
    (hInv : Inv config w) : Inv config (w.complete done outcome) := by
  rcases complete_cases (w := w) done outcome with h | ⟨f, hf, h | ⟨i, h⟩⟩
  · rw [h]
    exact hInv
  · rw [h]
    exact ended_inv outcome hInv hf
  · rw [h]
    unfold World.proceed
    split
    · exact ended_inv outcome hInv hf
    · next c hCall => exact setCall_inv (ended_inv outcome hInv hf) (ended_own hInv hf hCall)

/-! ## One event, and a run -/

/-- Every step keeps the invariant. -/
theorem inv_exec (hInv : Inv config w) (e : Event K) : Inv config (exec config w e) := by
  cases e with
  | tick clock =>
    show Inv config (if w.clock ≤ clock then { w with clock := clock } else w)
    -- a clock that would go back stays
    split
    · next hLe =>
      refine ⟨hInv.flight, hInv.reading, hInv.keys, hInv.fetchedAt, fun i c hCall => ?_⟩
      have hc := hInv.calls i c hCall
      exact ⟨hc.began, hc.now.trans hLe, hc.key, hc.flight, hc.own⟩
    · exact hInv
  | call i keyID =>
    -- a new call knows nothing yet: neither a key nor a fetch it waits for
    unfold exec
    dsimp only
    split
    · exact hInv
    · refine setCall_inv hInv ⟨le_rfl, le_rfl, ?_, ?_, ?_⟩
      · rintro key (h | h) <;> cases h
      · rintro (h | h) <;> cases h
      · rintro ⟨⟩
  | now i => exact proceed_inv hInv fun c hc => readClock_ok hc
  | snapshot i => exact proceed_inv hInv fun c hc => takeSnapshot_ok hInv hc
  | claim i => exact claim_inv i hInv
  | complete done outcome => exact complete_inv done outcome hInv
  | wake i => exact proceed_inv hInv fun c hc => awake_ok hc
  | cancel i => exact proceed_inv hInv fun c hc => giveUp_ok hc
  | look i => exact proceed_inv hInv fun c hc => readKeys_ok hInv hc

/-- So every run does. -/
theorem inv_run (config : JWKSConfig) (clock : Time) (events : List (Event K)) :
    Inv config (run (exec config) (World.initial clock) events) :=
  run_invariant' (Inv config) (fun _ e hInv => inv_exec hInv e) events _ (inv_initial clock)

/-! ## The key a call returns -/

/-- One call, further on. -/
def SameCall (c c' : Call K) : Prop := c'.keyID = c.keyID ∧ c'.began = c.began

/-- Setting a call to one of the same key and beginning. -/
theorem setCall_same {i j : Nat} {c c' d : Call K} (hCall : w.calls i = some c)
    (hSame : SameCall c c') (hOther : w.calls j = some d) :
    ∃ d', (w.setCall i c').calls j = some d' ∧ SameCall d d' := by
  show ∃ d', Function.update w.calls i (some c') j = some d' ∧ SameCall d d'
  by_cases hj : j = i
  · subst hj
    rw [hCall] at hOther
    cases hOther
    exact ⟨c', Function.update_self .., hSame⟩
  · exact ⟨d, by rw [Function.update_of_ne hj]; exact hOther, rfl, rfl⟩

/-- A step of a call keeps the key it is for and its beginning. -/
theorem proceed_same {i j : Nat} {next : Call K → Call K} {d : Call K}
    (hNext : ∀ c, SameCall c (next c)) (hOther : w.calls j = some d) :
    ∃ d', (w.proceed i next).calls j = some d' ∧ SameCall d d' := by
  unfold World.proceed
  split
  · exact ⟨d, hOther, rfl, rfl⟩
  · next c hCall => exact setCall_same hCall (hNext c) hOther

/-- And so does a claim, won or lost. -/
theorem tryClaim_same {i j : Nat} {c d : Call K} {caller : Option Nat} {claimed lost : Stage K}
    (hCall : w.calls i = some c) (hOther : w.calls j = some d) :
    ∃ d', (w.tryClaim i c caller claimed lost).calls j = some d' ∧ SameCall d d' := by
  unfold World.tryClaim
  split
  · exact setCall_same hCall ⟨rfl, rfl⟩ hOther
  · have hSame : SameCall c { c with stage := claimed } := ⟨rfl, rfl⟩
    exact setCall_same hCall hSame hOther

/-- No event changes the key id a call asks for or when it began. -/
theorem exec_same (config : JWKSConfig) {j : Nat} {d : Call K} (e : Event K) (hOther : w.calls j = some d) :
    ∃ d', (exec config w e).calls j = some d' ∧ SameCall d d' := by
  have hRefl : ∃ d', w.calls j = some d' ∧ SameCall d d' := ⟨d, hOther, rfl, rfl⟩
  cases e with
  | tick clock =>
    show ∃ d', (if w.clock ≤ clock then { w with clock := clock } else w).calls j = some d' ∧ _
    split <;> exact hRefl
  | call i keyID =>
    unfold exec
    dsimp only
    split
    · exact hRefl
    · next hNone =>
      -- an index that is in use is not given to another call
      have hj : j ≠ i := by
        rintro rfl
        rw [hNone] at hOther
        cases hOther
      exact ⟨d, (Function.update_of_ne hj _ _).trans hOther, rfl, rfl⟩
  | now i =>
    exact proceed_same (fun c => by unfold World.readClock; split <;> exact ⟨rfl, rfl⟩) hOther
  | snapshot i =>
    exact proceed_same (fun c => by unfold World.takeSnapshot; split <;> exact ⟨rfl, rfl⟩) hOther
  | claim i =>
    show ∃ d', (w.claim i).calls j = some d' ∧ SameCall d d'
    unfold World.claim
    split
    · exact hRefl
    · next c hCall =>
      split
      · exact tryClaim_same hCall hOther
      · exact tryClaim_same hCall hOther
      · exact hRefl
  | complete done outcome =>
    show ∃ d', (w.complete done outcome).calls j = some d' ∧ SameCall d d'
    rcases complete_cases (w := w) done outcome with h | ⟨f, -, h | ⟨i, h⟩⟩
    · rw [h]
      exact hRefl
    · rw [h]
      exact hRefl
    · rw [h]
      exact proceed_same (w := w.ended f outcome)
        (fun c => by unfold World.ownRefreshEnded; split <;> exact ⟨rfl, rfl⟩) hOther
  | wake i =>
    refine proceed_same (fun c => ?_) hOther
    unfold World.awake
    split
    · split <;> exact ⟨rfl, rfl⟩
    · exact ⟨rfl, rfl⟩
  | cancel i =>
    exact proceed_same (fun c => by unfold World.giveUp; split <;> exact ⟨rfl, rfl⟩) hOther
  | look i =>
    exact proceed_same (fun c => by unfold World.readKeys; split <;> exact ⟨rfl, rfl⟩) hOther

/-- A fetch that fails leaves the keys and the time they were fetched. -/
theorem complete_error (done : Nat) (err : Text) :
    (w.complete done (.error err)).cache.keys = w.cache.keys ∧
      (w.complete done (.error err)).cache.fetchedAt = w.cache.fetchedAt := by
  have hProceed (v : World K) (i : Nat) (next : Call K → Call K) :
      (v.proceed i next).cache = v.cache := by
    unfold World.proceed
    split <;> rfl
  rcases complete_cases (w := w) done (.error err) with h | ⟨f, -, h | ⟨i, h⟩⟩
  · rw [h]
    exact ⟨rfl, rfl⟩
  all_goals
    have hRefresh := refresh_error w.cache f.reading f.done err
    rw [h]
    try rw [hProceed]
    exact ⟨hRefresh.1, hRefresh.2.1⟩

/-- In every run the cache holds the last set installed. The event in which a
call returns a key finds that key under the call's key id in a set that was in
force since the call began, and whose refresh was claimed at most the refresh
interval and the stale tolerance before the call's last clock reading. A
refresh that fails changes neither the keys nor their fetch time. -/
theorem returned_key_was_current (config : JWKSConfig) (clock : Time) (events : List (Event K))
    (e : Event K) :
    let w := run (exec config) (World.initial clock) events
    let w' := exec config w e
    w.cache.keys = currentKeys w.installs ∧
      (∀ i c c' key, w.calls i = some c → (∀ r, c.stage ≠ .returned r) →
        w'.calls i = some c' → c'.stage = .returned (.ok key) →
        ∃ install ∈ w'.installs.drop (c.began - 1), install.keys c.keyID = some key ∧
          c'.now - install.claimed ≤ config.refreshInterval + config.staleTolerance) ∧
      ∀ done err, e = .complete done (.error err) →
        w'.cache.keys = w.cache.keys ∧ w'.cache.fetchedAt = w.cache.fetchedAt := by
  intro w w'
  have hInv : Inv config w := inv_run config clock events
  refine ⟨hInv.keys, ?_, ?_⟩
  · -- a step does not change which key a call is for
    intro i c c' key hCall _ hCall' hStage
    obtain ⟨d, hd, hKeyID, hBegan⟩ := exec_same config e hCall
    have hSame : d = c' := Option.some.inj (hd.symm.trans hCall')
    subst hSame
    rw [← hKeyID, ← hBegan]
    exact ((inv_exec hInv e).calls i d hCall').key key (.inr hStage)
  · rintro done err rfl
    exact complete_error done err

/-- The default intervals. -/
def sampleConfig : JWKSConfig :=
  ⟨"jwks".toList, defaultJWKSRefreshInterval, defaultJWKSMinInterval, defaultJWKSStaleTolerance⟩

/-- One published key, under the id "first". -/
def sampleKeys : Text → Option Nat := fun keyID => if keyID = "first".toList then some 7 else none

/-- One call up to its last critical section: it has fetched the keys itself. -/
def fetchingCall (i : Nat) (keyID : Text) (done : Nat) : List (Event Nat) :=
  [.call i keyID, .now i, .snapshot i, .claim i, .complete done (.ok sampleKeys)]

/-- The first call returns the key it fetched. -/
theorem returned_key_was_current_first :
    let w := run (exec sampleConfig) (World.initial 1000) (fetchingCall 0 "first".toList 0)
    ∃ install ∈ (exec sampleConfig w (.look 0)).installs.drop 0,
      install.keys "first".toList = some 7 ∧ (1000 : Int) - install.claimed ≤ 2700000000000 :=
  (returned_key_was_current sampleConfig 1000 (fetchingCall 0 "first".toList 0) (.look 0)).2.1
    0 ⟨"first".toList, 0, 1000, .refreshed⟩ ⟨"first".toList, 0, 1000, .returned (.ok 7)⟩ 7
    (by rfl) (by intro r; simp) (by rfl) (by rfl)

/-! ## The rate limit -/

def Stage.claims : Stage K → Bool
  | .serving _ | .claiming => true
  | _ => false

/-- The call that starts a fetch in this event, if one does. -/
def World.claimant (w : World K) : Event K → Option (Call K)
  | .claim i => (w.calls i).filter fun c => c.stage.claims && w.cache.refreshDone.isNone
  | _ => none

/-- A call that claims would pass the rate limit on the cache as it finds it,
not only on its snapshot. -/
def stillDue (config : JWKSConfig) (w : World K) (e : Event K) : Bool :=
  (w.claimant e).all fun c =>
    w.starts.isEmpty || decide (config.minInterval ≤ c.now - w.cache.lastAttempt)

/-- A call that claims does so before the clock moves on from its reading. -/
def atOnce (w : World K) (e : Event K) : Bool :=
  (w.claimant e).all fun c => decide (c.now = w.clock)

/-- `lastAttempt` is the clock reading of the last fetch started. -/
def Recorded (w : World K) : Prop :=
  ∀ f, w.starts.getLast? = some f → w.cache.lastAttempt = f.reading

/-- A step of a call starts no fetch and leaves the cache. -/
@[simp] theorem proceed_starts (i : Nat) (next : Call K → Call K) :
    (w.proceed i next).starts = w.starts ∧ (w.proceed i next).cache = w.cache := by
  unfold World.proceed
  split <;> exact ⟨rfl, rfl⟩

/-- The end of a fetch is no attempt. -/
theorem refresh_lastAttempt (c : JWKSCache K) (fetchedAt : Time) (done : Nat)
    (outcome : Except Text (Text → Option K)) :
    (refresh c fetchedAt done outcome).lastAttempt = c.lastAttempt := by
  unfold refresh
  cases outcome <;> dsimp only <;> split <;> rfl

/-- A claim that meets no refresh in flight records its reading and starts a fetch. -/
theorem tryClaim_starts {i : Nat} {c : Call K} {caller : Option Nat} {claimed lost : Stage K}
    (hNone : w.cache.refreshDone = none) :
    (w.tryClaim i c caller claimed lost).starts =
        w.starts ++ [⟨c.now, w.clock, w.channels, caller⟩] ∧
      (w.tryClaim i c caller claimed lost).cache.lastAttempt = c.now := by
  simp [World.tryClaim, claimRefresh, hNone]

/-- A claim that is lost starts nothing. -/
theorem tryClaim_lost {i : Nat} {c : Call K} {caller : Option Nat} {claimed lost : Stage K}
    {done : Nat} (hDone : w.cache.refreshDone = some done) :
    (w.tryClaim i c caller claimed lost).starts = w.starts ∧
      (w.tryClaim i c caller claimed lost).cache = w.cache := by
  simp [World.tryClaim, claimRefresh, hDone, World.setCall]

/-- What a claim is: a step of a call that is about to make one, or nothing. -/
theorem claim_cases (i : Nat) :
    (w.claim i = w ∧ ∀ c, w.calls i = some c → c.stage.claims = false) ∨
      ∃ c caller claimed lost, w.calls i = some c ∧ c.stage.claims = true ∧
        w.claim i = w.tryClaim i c caller claimed lost := by
  unfold World.claim
  cases hCall : w.calls i with
  | none => exact .inl ⟨rfl, fun c h => nomatch h⟩
  | some c =>
    dsimp only
    split
    · next key hStage => exact .inr ⟨c, _, _, _, rfl, by rw [hStage]; rfl, rfl⟩
    · next hStage => exact .inr ⟨c, _, _, _, rfl, by rw [hStage]; rfl, rfl⟩
    · next hServing hClaiming =>
      refine .inl ⟨rfl, fun c' h => ?_⟩
      cases h
      unfold Stage.claims
      split
      · next key hStage => exact absurd hStage (hServing key)
      · next hStage => exact absurd hStage hClaiming
      · rfl

/-- An event starts a fetch exactly when it has a claimant, at that call's reading. -/
theorem starts_exec (config : JWKSConfig) (w : World K) (e : Event K) :
    match w.claimant e with
    | none => (exec config w e).starts = w.starts ∧
        (exec config w e).cache.lastAttempt = w.cache.lastAttempt
    | some c => (exec config w e).cache.lastAttempt = c.now ∧
        ∃ done caller, (exec config w e).starts = w.starts ++ [⟨c.now, w.clock, done, caller⟩] := by
  cases e with
  | tick clock =>
    show (if w.clock ≤ clock then { w with clock := clock } else w).starts = _ ∧
      (if w.clock ≤ clock then { w with clock := clock } else w).cache.lastAttempt = _
    split <;> exact ⟨rfl, rfl⟩
  | call i keyID =>
    simp only [World.claimant, exec]
    split <;> exact ⟨rfl, rfl⟩
  | now i => simp [World.claimant, exec]
  | snapshot i => simp [World.claimant, exec]
  | claim i =>
    show match (w.calls i).filter _ with
      | none => (w.claim i).starts = _ ∧ (w.claim i).cache.lastAttempt = _
      | some c => (w.claim i).cache.lastAttempt = _ ∧ ∃ done caller, (w.claim i).starts = _
    -- no fetch is started while one is in flight, whoever tries
    rcases claim_cases (w := w) i with ⟨hSelf, hIdle⟩ | ⟨c, caller, claimed, lost, hCall, hClaims, h⟩
    · -- not about to claim
      rw [hSelf]
      cases hCall : w.calls i with
      | none => exact ⟨rfl, rfl⟩
      | some c =>
        rw [show (some c).filter _ = none by simp [hIdle c hCall]]
        exact ⟨rfl, rfl⟩
    · rw [h, hCall]
      cases hDone : w.cache.refreshDone with
      | some done =>
        -- a fetch is under way: the claim is lost
        rw [show (some c).filter _ = none by simp]
        exact ⟨(tryClaim_lost hDone).1, congrArg _ (tryClaim_lost hDone).2⟩
      | none =>
        rw [show (some c).filter _ = some c by simp [hClaims]]
        exact ⟨(tryClaim_starts hDone).2, _, _, (tryClaim_starts hDone).1⟩
  | complete done outcome =>
    simp only [World.claimant, exec]
    rcases complete_cases (w := w) done outcome with h | ⟨f, -, h | ⟨i, h⟩⟩
    · rw [h]
      exact ⟨rfl, rfl⟩
    · rw [h]
      exact ⟨rfl, refresh_lastAttempt ..⟩
    · rw [h, (proceed_starts i _).1, (proceed_starts i _).2]
      exact ⟨rfl, refresh_lastAttempt ..⟩
  | wake i => simp [World.claimant, exec]
  | cancel i => simp [World.claimant, exec]
  | look i => simp [World.claimant, exec]

/-- The last attempt stays the reading of the last fetch that was started. -/
theorem recorded_exec (h : Recorded w) (e : Event K) : Recorded (exec config w e) := by
  have hStarts := starts_exec config w e
  intro f hLast
  cases hClaimant : w.claimant e with
  | none =>
    rw [hClaimant] at hStarts
    rw [hStarts.1] at hLast
    rw [hStarts.2]
    exact h f hLast
  | some c =>
    rw [hClaimant] at hStarts
    obtain ⟨hAttempt, done, caller, hStart⟩ := hStarts
    rw [hStart, List.getLast?_concat] at hLast
    cases hLast
    exact hAttempt

/-- Each fetch starts at least `gap` after every earlier one, by the clock `at'`. -/
def Spaced (gap : Nat) (at' : Fetch → Time) (starts : List Fetch) : Prop :=
  starts.Pairwise fun f g => at' f + gap ≤ at' g

/-- One more fetch keeps the spacing exactly when it is spaced from the last. -/
theorem spaced_concat_iff {gap : Nat} {at' : Fetch → Time} {starts : List Fetch} {g : Fetch}
    {last : Time} (hSpaced : Spaced gap at' starts)
    (hLast : ∀ f, starts.getLast? = some f → last = at' f) :
    Spaced gap at' (starts ++ [g]) ↔ starts = [] ∨ gap ≤ at' g - last := by
  have hGap : (0 : Int) ≤ gap := Int.natCast_nonneg gap
  rcases List.eq_nil_or_concat' starts with rfl | ⟨before, l, rfl⟩
  · -- a pairwise condition on the longer list says it of the last two
    simp [Spaced]
  · have hl : last = at' l := hLast l List.getLast?_concat
    obtain ⟨-, -, hBefore⟩ := List.pairwise_append.mp hSpaced
    constructor
    · intro h
      have hPair := (List.pairwise_append.mp h).2.2 l (by simp) g (by simp)
      exact .inr (by rw [hl]; linarith)
    · rintro (h | h)
      · simp at h
      · -- an earlier fetch is spaced from the last, which is spaced from the new one
        refine List.pairwise_append.mpr ⟨hSpaced, List.pairwise_singleton .., ?_⟩
        intro f hf g' hg'
        rw [List.mem_singleton] at hg'
        subst hg'
        rw [hl] at h
        rcases List.mem_append.mp hf with hf | hf
        · have hfl := hBefore f hf l (by simp)
          linarith
        · rw [List.mem_singleton] at hf
          subst hf
          linarith

/-- Fetches that were started are never forgotten. -/
theorem starts_grow (events : List (Event K)) :
    w.starts <+: (run (exec config) w events).starts := by
  induction events generalizing w with
  | nil => exact List.prefix_rfl
  | cons e events ih =>
    refine List.IsPrefix.trans ?_ ih
    have hStarts := starts_exec config w e
    cases hClaimant : w.claimant e with
    | none =>
      rw [hClaimant] at hStarts
      rw [hStarts.1]
    | some c =>
      rw [hClaimant] at hStarts
      obtain ⟨-, done, caller, hStart⟩ := hStarts
      rw [hStart]
      exact List.prefix_append ..

/-- One event keeps the spacing exactly when its claim, if any, is still due. -/
theorem spaced_exec_iff (hRecorded : Recorded w)
    (hSpaced : Spaced config.minInterval Fetch.reading w.starts) (e : Event K) :
    Spaced config.minInterval Fetch.reading (exec config w e).starts ↔
      stillDue config w e = true := by
  have hStarts := starts_exec config w e
  cases hClaimant : w.claimant e with
  | none =>
    rw [hClaimant] at hStarts
    rw [hStarts.1, stillDue, hClaimant]
    simp [hSpaced]
  | some c =>
    rw [hClaimant] at hStarts
    obtain ⟨-, done, caller, hStart⟩ := hStarts
    rw [hStart, spaced_concat_iff hSpaced hRecorded, stillDue, hClaimant]
    simp

/-- A run keeps the fetches spaced exactly when each of them was still due as it was claimed. -/
theorem spaced_run_iff (hRecorded : Recorded w)
    (hSpaced : Spaced config.minInterval Fetch.reading w.starts) (events : List (Event K)) :
    Spaced config.minInterval Fetch.reading (run (exec config) w events).starts ↔
      Along (exec config) (fun w e => stillDue config w e = true) w events := by
  induction events generalizing w with
  | nil => exact ⟨fun _ => trivial, fun _ => hSpaced⟩
  | cons e events ih =>
    by_cases hDue : stillDue config w e = true
    · have hNext := (spaced_exec_iff hRecorded hSpaced e).mpr hDue
      rw [run_cons, ih (recorded_exec hRecorded e) hNext]
      exact ⟨fun h => ⟨hDue, h⟩, fun h => h.2⟩
    · -- the fetch that came too early stays in the list of starts
      constructor
      · intro h
        refine absurd ((spaced_exec_iff hRecorded hSpaced e).mp ?_) hDue
        exact List.Pairwise.sublist (starts_grow events).sublist h
      · exact fun h => absurd h.1 hDue

/-- Fetches claimed at once start, by the clock, at their readings. -/
theorem moment_eq_reading (clock : Time) (events : List (Event K))
    (hAtOnce : Along (exec config) (fun w e => atOnce w e = true) (World.initial clock) events) :
    ∀ f ∈ (run (exec config) (World.initial clock : World K) events).starts,
      f.moment = f.reading := by
  refine run_invariant (fun w : World K => ∀ f ∈ w.starts, f.moment = f.reading) _ ?_ events _
    (fun f hf => nomatch hf) hAtOnce
  intro w e hInv hNow f hf
  have hStarts := starts_exec config w e
  cases hClaimant : w.claimant e with
  | none =>
    -- no fetch was started by this step
    rw [hClaimant] at hStarts
    rw [hStarts.1] at hf
    exact hInv f hf
  | some c =>
    rw [hClaimant] at hStarts
    obtain ⟨-, done, caller, hStart⟩ := hStarts
    rw [hStart, List.mem_append, List.mem_singleton] at hf
    rcases hf with hf | rfl
    · exact hInv f hf
    · have hClock : c.now = w.clock := by simpa [atOnce, hClaimant] using hNow
      exact hClock.symm

/-- Two fetches half a minute apart. -/
def spacedRun : List (Event Nat) :=
  fetchingCall 0 "first".toList 0 ++ [.look 0, .tick (1000 + 30 * second)] ++
    fetchingCall 1 "forged".toList 1

/-- Two calls with forged key ids take their snapshots before either claims. -/
def forgedRun : List (Event Nat) :=
  [.call 0 "forged".toList, .call 1 "other".toList, .now 0, .now 1, .snapshot 0, .snapshot 1,
    .claim 0, .complete 0 (.ok sampleKeys), .claim 1]

end Cashflow.Auth
