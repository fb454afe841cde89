import Cashflow.Ledger.Consistency

/-!
# Ledger — one effect for each idempotency key

A history is a list of requests, each with its surroundings: its own clock,
time zone, faults and commit. Once a request has committed, its record answers
every later request with the same merchant, operation and key: with the result
stored in it if the requests hash the same fields, with a conflict otherwise,
and never with another entry. A request that has not committed leaves no trace.

Main results: `exec_claimed`, what a transaction does with a key that is taken;
`key_takes_effect_once`, the above over every history.
-/

namespace Cashflow.Ledger

open Lib

/-! ## Histories -/

/-- The ledger after one more request. -/
def serve (platform : Platform) (d : Db) (c : Env × Request) : Db := (c.2.run platform c.1 d).2

/-- The ledger after a history. -/
def served (platform : Platform) (history : List (Env × Request)) : Db :=
  run (serve platform) Db.empty history

/-- The transaction of the request takes effect with this result, whether or not
the acknowledgement arrives. -/
def Committed (platform : Platform) (env : Env) (req : Request) (d : Db) (result : EntryResult) :
    Prop :=
  ∃ attempt tx d', req.prepare platform env = .ok (attempt, tx) ∧ env.begins = none ∧
    ((engine platform.jsonb).withFaults env.fault).exec tx d = .ok (result, d') ∧
    env.commit ≠ .rolledBack

/-- What a request that commits returns, and what becomes of the ledger. -/
theorem Committed.run_eq {platform : Platform} {env : Env} {req : Request} {d : Db}
    {result : EntryResult} (h : Committed platform env req d result) :
    ∃ attempt tx, req.prepare platform env = .ok (attempt, tx) ∧
      (engine platform.jsonb).exec tx d = .ok (result, (req.run platform env d).2) ∧
      ((req.run platform env d).1 = .ok result ∨ env.commit = .unacknowledged) := by
  obtain ⟨attempt, tx, d', hPrepare, hBegins, hExec, hCommit⟩ := h
  refine ⟨attempt, tx, hPrepare, ?_⟩
  rw [Request.run, hPrepare]
  show (engine platform.jsonb).exec tx d = .ok (result, (execute platform.jsonb env tx d).2) ∧
    ((execute platform.jsonb env tx d).1 = .ok result ∨ _)
  unfold execute
  simp only [hBegins, hExec]
  refine ⟨?_, ?_⟩
  · -- the database is the one the transaction left, unless the commit was rolled back
    rw [Engine.exec_of_withFaults _ hExec]
    cases hOutcome : env.commit with
    | committed => rfl
    | rolledBack => exact absurd hOutcome hCommit
    | unacknowledged => rfl
  · -- and the caller learns of it, unless the answer was lost
    cases hOutcome : env.commit with
    | committed => exact Or.inl rfl
    | rolledBack => exact absurd hOutcome hCommit
    | unacknowledged => exact Or.inr rfl

/-- A request that returns a result has committed it. -/
theorem committed_of_ok {platform : Platform} {env : Env} {req : Request} {d : Db}
    {result : EntryResult} (h : (req.run platform env d).1 = .ok result) :
    Committed platform env req d result := by
  unfold Request.run at h
  split at h
  · cases h
  · rename_i attempt tx hPrepare
    unfold execute at h
    split at h
    · -- the transaction did not begin
      cases h
    · rename_i hBegins
      split at h
      · -- it failed
        cases h
      · rename_i stored d' hExec
        cases hOutcome : env.commit with
        | committed =>
          simp only [hOutcome, Except.ok.injEq] at h
          exact ⟨attempt, tx, d', hPrepare, hBegins, h ▸ hExec, by rw [hOutcome]; decide⟩
        -- a commit that failed is not reported as a success
        | rolledBack => simp [hOutcome] at h
        | unacknowledged => simp [hOutcome] at h

/-- A request that does not commit leaves the ledger as it was. -/
theorem run_of_not_committed {platform : Platform} {env : Env} {req : Request} {d : Db}
    (h : ∀ result, ¬ Committed platform env req d result) : (req.run platform env d).2 = d := by
  unfold Request.run
  split
  · rfl
  · rename_i attempt tx hPrepare
    unfold execute
    split
    · rfl
    · rename_i hBegins
      split
      · rfl
      · rename_i result d' hExec
        have hOutcome : env.commit = .rolledBack := by
          by_contra hCommit
          exact h result ⟨attempt, tx, d', hPrepare, hBegins, hExec, hCommit⟩
        rw [hOutcome]

/-! ## Records -/

/-- What a key is scoped by. Identifiers of merchants are compared as the
database does, without regard to case. -/
def Request.scope (req : Request) : Text × Operation × Text :=
  (lower req.merchantID, req.operation, req.key)

/-- The record is under the key of the request. -/
def IdempotencyRow.IsFor (r : IdempotencyRow) (req : Request) : Prop :=
  r.merchantID.text = lower req.merchantID ∧ r.operation = req.operation ∧
    r.keyHash = sha256 (utf8 req.key)

/-- A record is for every request of its scope. -/
theorem IdempotencyRow.IsFor.congr {r : IdempotencyRow} {req req' : Request} (h : r.IsFor req)
    (hScope : req'.scope = req.scope) : r.IsFor req' := by
  simp only [Request.scope, Prod.mk.injEq] at hScope
  obtain ⟨hMerchant, hOperation, hKey⟩ := hScope
  exact ⟨by rw [hMerchant]; exact h.1, by rw [hOperation]; exact h.2.1, by rw [hKey]; exact h.2.2⟩

/-- The record an attempt finds is for its request. -/
theorem Request.Attempts.isFor {req : Request} {env : Env} {attempt : IdempotencyAttempt}
    (h : req.Attempts env attempt) {r : IdempotencyRow} (hr : r.scope = attempt.row.scope) :
    r.IsFor req := by
  simp only [IdempotencyRow.scope, IdempotencyAttempt.row, Prod.mk.injEq] at hr
  refine ⟨?_, hr.2.1.trans h.operation, hr.2.2.trans h.keyHash⟩
  rw [hr.1, ← h.merchantID]
  rfl

theorem Request.Attempts.scope {req : Request} {env : Env} {attempt : IdempotencyAttempt}
    (h : req.Attempts env attempt) {r : IdempotencyRow} (hr : r.IsFor req) :
    r.scope = attempt.row.scope := by
  obtain ⟨hMerchant, hOperation, hKey⟩ := hr
  have hSame : r.merchantID = attempt.merchantID.uuid := by
    apply UUID.ext
    rw [hMerchant, ← h.merchantID]
    rfl
  simp only [IdempotencyRow.scope, IdempotencyAttempt.row, hSame, hOperation, hKey, h.operation,
    h.keyHash]

/-- Records are never removed. -/
theorem record_kept {platform : Platform} {env : Env} {req : Request} {d : Db}
    {r : IdempotencyRow} (hr : r ∈ d.idempotency) : r ∈ (req.run platform env d).2.idempotency := by
  rcases run_cases platform env req d with hSame | ⟨p, -, hPosts, -⟩
  · rw [hSame]
    exact hr
  · exact hPosts.mem_idempotency.mpr (Or.inl hr)

/-- A request that commits leaves a record with its hash and its result. -/
theorem Committed.record {platform : Platform} {env : Env} {req : Request} {d : Db}
    {result : EntryResult} (h : Committed platform env req d result) :
    ∃ r ∈ (req.run platform env d).2.idempotency, r.IsFor req ∧ r.requestHash = req.hash ∧
      r.responsePayload.bind EntryResult.unmarshal = some result := by
  obtain ⟨attempt, tx, hPrepare, hExec, -⟩ := h.run_eq
  obtain ⟨hAttempts, create, hBody, rfl⟩ := prepare_ok hPrepare
  rcases idempotentTx_ok hBody hExec with
    ⟨hSame, r, hr, hScope, hReplay⟩ | ⟨p, hp, hResult, hPosts, hMade, -⟩
  · -- the request was itself answered from a record
    rw [hSame]
    refine ⟨r, hr, hAttempts.isFor hScope, ?_⟩
    unfold replay at hReplay
    split at hReplay
    · cases hReplay
    · rename_i hHash
      split at hReplay
      · rename_i stored hStored
        cases hReplay
        exact ⟨(not_not.mp hHash).trans hAttempts.requestHash, hStored⟩
      · cases hReplay
  · subst hp
    refine ⟨p.record, hPosts.mem_idempotency.mpr (Or.inr rfl), hAttempts.isFor rfl,
      hAttempts.requestHash, ?_⟩
    show EntryResult.unmarshal p.response = some result
    rw [hMade.response, hResult]

/-! ## A key that is taken -/

section Claimed

variable {platform : Platform} {env : Env} {req : Request} {d : Db} {r : IdempotencyRow}

/-- Nothing is posted under a key that is taken. -/
theorem run_claimed (hr : r ∈ d.idempotency) (hFor : r.IsFor req) :
    (req.run platform env d).2 = d := by
  rcases run_cases platform env req d with hSame | ⟨p, hAttempts, hPosts, -⟩
  · exact hSame
  · have hUnique := (req.run platform env d).2.idempotency.unique
    rw [hPosts.idempotency, List.pairwise_append] at hUnique
    have hClash := hUnique.2.2 r hr p.record List.mem_cons_self
    rw [idempotencySchema, decide_eq_false_iff_not] at hClash
    exact absurd (Or.inr (hAttempts.scope hFor)) hClash

/-- The request gets as far as reading the record of its key. -/
structure ReachesClaim (platform : Platform) (env : Env) (req : Request)
    (attempt : IdempotencyAttempt) : Prop where
  prepare : ∃ tx, req.prepare platform env = .ok (attempt, tx)
  begins : env.begins = none
  claim : env.fault (.insertIdempotency attempt.row) = none
  read : env.fault (.selectIdempotency attempt.row.scope) = none

/-- The transaction of a request whose key is taken replays the record. -/
theorem exec_claimed (platform : Platform) {attempt : IdempotencyAttempt}
    (create : Tx EntryResult) (hr : r ∈ d.idempotency) (hScope : r.scope = attempt.row.scope)
    (hClaim : env.fault (.insertIdempotency attempt.row) = none)
    (hRead : env.fault (.selectIdempotency attempt.row.scope) = none) :
    ((engine platform.jsonb).withFaults env.fault).exec (idempotentTx env attempt create) d =
      (replay ⟨r.requestHash, r.responsePayload⟩ attempt.requestHash).map fun result =>
        (result, d) := by
  set faulty := (engine platform.jsonb).withFaults env.fault with hFaulty
  have hInsert : faulty.eval (.insertIdempotency attempt.row) d = .ok (false, []) := by
    rw [hFaulty]
    simp only [Engine.withFaults, hClaim]
    exact evalInsertIdempotency_ok.mpr (Or.inl ⟨rfl, rfl, r, hr, hScope⟩)
  have hSelect : faulty.eval (.selectIdempotency attempt.row.scope) d =
      .ok ((r.requestHash, r.responsePayload), []) := by
    rw [hFaulty]
    simp only [Engine.withFaults, hRead]
    exact evalSelectIdempotency_ok.mpr ⟨rfl, r, hr, hScope, rfl⟩
  -- the claim finds the key taken, and the record is read
  show faulty.exec (.stmt (.insertIdempotency attempt.row) _ _) d = _
  rw [Engine.exec, hInsert]
  show faulty.exec (.stmt (.selectIdempotency attempt.row.scope) _ _) d = _
  rw [Engine.exec, hSelect]
  show faulty.exec (.done (replay ⟨r.requestHash, r.responsePayload⟩ attempt.requestHash)) d = _
  cases replay ⟨r.requestHash, r.responsePayload⟩ attempt.requestHash <;> rfl

/-- What such a request returns. -/
theorem run_replay {attempt : IdempotencyAttempt} (hReaches : ReachesClaim platform env req attempt)
    (hr : r ∈ d.idempotency) (hFor : r.IsFor req) :
    (∀ result, replay ⟨r.requestHash, r.responsePayload⟩ req.hash = .ok result →
      env.commit = .committed → (req.run platform env d).1 = .ok result) ∧
    (∀ e, replay ⟨r.requestHash, r.responsePayload⟩ req.hash = .error e →
      (req.run platform env d).1 = .error e) := by
  obtain ⟨tx, hPrepare⟩ := hReaches.prepare
  obtain ⟨hAttempts, create, -, rfl⟩ := prepare_ok hPrepare
  have hExec := exec_claimed platform create hr (hAttempts.scope hFor) hReaches.claim
    hReaches.read
  rw [Request.run, hPrepare, ← hAttempts.requestHash]
  show (∀ result, _ → _ → (execute platform.jsonb env _ d).1 = .ok result) ∧
    ∀ e, _ → (execute platform.jsonb env _ d).1 = .error e
  unfold execute
  rw [hReaches.begins]
  constructor
  · -- the replay has nothing to commit, but the commit may fail all the same
    intro result hReplay hCommit
    rw [hReplay] at hExec
    simp only [hExec, Except.map, hCommit]
  · intro e hReplay
    rw [hReplay] at hExec
    simp only [hExec, Except.map]

end Claimed

/-! ## One effect for each key -/

/-- The entries created under a key. -/
def Db.entriesUnder (d : Db) (merchantID : UUID) (operation : Operation) (key : Text) :
    List EntryRow :=
  d.entries.rows.filter fun e => d.idempotency.rows.any fun r =>
    r.entryID = some e.id ∧ r.scope = (merchantID, operation, sha256 (utf8 key))

/-- A key has one entry at most. -/
theorem entriesUnder_length (d : Db) (m : UUID) (operation : Operation) (key : Text) :
    (d.entriesUnder m operation key).length ≤ 1 := by
  have hSame : ∀ a ∈ d.entriesUnder m operation key, ∀ b ∈ d.entriesUnder m operation key,
      a = b := by
    intro a ha b hb
    obtain ⟨ha, hRecord⟩ := List.mem_filter.mp ha
    obtain ⟨hb, hRecord'⟩ := List.mem_filter.mp hb
    obtain ⟨r, hr, hKey⟩ := List.any_eq_true.mp hRecord
    obtain ⟨r', hr', hKey'⟩ := List.any_eq_true.mp hRecord'
    obtain ⟨hId, hScope⟩ := of_decide_eq_true hKey
    obtain ⟨hId', hScope'⟩ := of_decide_eq_true hKey'
    -- one scope, one record; one record, one entry
    have hRow : r = r' :=
      Table.eq_of_clash hr hr' (decide_eq_true (Or.inr (hScope.trans hScope'.symm)))
    subst hRow
    exact entry_eq_of_id ha hb (Option.some.inj (hId.symm.trans hId'))
  have hNodup : (d.entriesUnder m operation key).Nodup := (entries_nodup d).filter _
  match hList : d.entriesUnder m operation key with
  | [] => exact Nat.zero_le 1
  | [_] => exact Nat.le_refl 1
  | a :: b :: rest =>
    rw [hList] at hSame hNodup
    have hEq : a = b := hSame a List.mem_cons_self b (List.mem_cons_of_mem _ List.mem_cons_self)
    exact absurd (hEq ▸ List.mem_cons_self) (List.nodup_cons.mp hNodup).1

/-- Everything a history hashes with SHA-256. -/
def hashInputs (history : List (Env × Request)) : List (List UInt8) :=
  history.flatMap fun c => [utf8 c.2.key, utf8 (Json.renderObject c.2.hashed)]

/-- Requests of a history with the same hash have the same hashed fields. -/
theorem hashed_eq_of_hash {history : List (Env × Request)} (hHash : CollisionFree (hashInputs history))
    {c c' : Env × Request} (hc : c ∈ history) (hc' : c' ∈ history) (h : c.2.hash = c'.2.hash) :
    c.2.hashed = c'.2.hashed := by
  have hInput : ∀ {x : Env × Request}, x ∈ history →
      utf8 (Json.renderObject x.2.hashed) ∈ hashInputs history := fun hx =>
    List.mem_flatMap.mpr ⟨_, hx, List.mem_cons_of_mem _ List.mem_cons_self⟩
  exact Json.renderObject_injective (utf8_injective (hHash _ (hInput hc) _ (hInput hc') h))

/-- Over any history: a key has one entry at most; once a request is committed, another one of its
scope leaves the ledger as it is, and gets the stored response if it asks for the same and a
conflict if it does not; a request that is not committed might as well not have been made. -/
theorem key_takes_effect_once (platform : Platform) (past between : List (Env × Request))
    (env₁ env₂ : Env) (req₁ req₂ : Request)
    (hHash : CollisionFree (hashInputs (past ++ (env₁, req₁) :: between ++ [(env₂, req₂)]))) :
    let d₀ := served platform past
    let d := served platform (past ++ (env₁, req₁) :: between)
    (∀ m operation key, (d.entriesUnder m operation key).length ≤ 1) ∧
    (∀ result, Committed platform env₁ req₁ d₀ result →
      ((req₁.run platform env₁ d₀).1 = .ok result ∨ env₁.commit = .unacknowledged) ∧
      (req₂.scope = req₁.scope → (req₂.run platform env₂ d).2 = d ∧
        ∀ attempt, ReachesClaim platform env₂ req₂ attempt →
          (req₂.hashed = req₁.hashed → env₂.commit = .committed →
            (req₂.run platform env₂ d).1 = .ok result) ∧
          (req₂.hashed ≠ req₁.hashed →
            (req₂.run platform env₂ d).1 = .error .idempotencyConflict))) ∧
    ((∀ result, ¬ Committed platform env₁ req₁ d₀ result) →
      d = served platform (past ++ between) ∧
      ((∀ r ∈ d₀.idempotency, ¬ r.IsFor req₁) →
        ∀ r ∈ (req₁.run platform env₁ d₀).2.idempotency, ¬ r.IsFor req₁)) := by
  intro d₀ d
  refine ⟨fun m operation key => entriesUnder_length d m operation key, ?_, ?_⟩
  · intro result hCommitted
    obtain ⟨-, -, -, -, hReturned⟩ := hCommitted.run_eq
    refine ⟨hReturned, fun hScope => ?_⟩
    obtain ⟨r, hr, hFor, hHashEq, hResponse⟩ := hCommitted.record
    -- the record is still there after the requests in between
    have hMem : r ∈ d.idempotency := by
      show r ∈ (run (serve platform) Db.empty (past ++ (env₁, req₁) :: between)).idempotency
      rw [run_append, run_cons]
      exact run_invariant' (fun d : Db => r ∈ d.idempotency) (fun _ _ h => record_kept h) between _ hr
    have hFor₂ : r.IsFor req₂ := hFor.congr hScope
    refine ⟨run_claimed hMem hFor₂, fun attempt hReaches => ?_⟩
    obtain ⟨hReplayOk, hReplayError⟩ := run_replay hReaches hMem hFor₂
    constructor
    · -- the same request: the stored response
      intro hSame hCommit
      refine hReplayOk result ?_ hCommit
      have hHash₂ : r.requestHash = req₂.hash := by
        rw [hHashEq, Request.hash, Request.hash, hSame]
      rw [replay, if_neg (not_not.mpr hHash₂), hResponse]
    · -- another one under the same key: its hash differs, as hashes do not collide
      intro hDiffer
      refine hReplayError _ ?_
      have hHash₂ : r.requestHash ≠ req₂.hash := by
        intro hEq
        refine hDiffer (@hashed_eq_of_hash _ hHash (env₂, req₂) (env₁, req₁) ?_ ?_ ?_)
        · simp
        · simp
        · exact hEq.symm.trans hHashEq
      rw [replay, if_pos hHash₂]
  · intro hFailed
    have hSame : (req₁.run platform env₁ d₀).2 = d₀ := run_of_not_committed hFailed
    refine ⟨?_, fun hKey => by rw [hSame]; exact hKey⟩
    show run (serve platform) Db.empty (past ++ (env₁, req₁) :: between) =
      run (serve platform) Db.empty (past ++ between)
    rw [run_append, run_append, run_cons]
    show run (serve platform) (req₁.run platform env₁ d₀).2 between = _
    rw [hSame]
    rfl

/-- A sale asked for again after its refund. -/
theorem key_takes_effect_once_sale :
    ∃ result, (saleRequest.run utcPlatform (calmEnv newYear 0) Db.empty).1 = .ok result ∧
      (saleRequest.run utcPlatform (calmEnv newYear 32) saleAndRefund).1 = .ok result := by
  have hOk : (saleRequest.run utcPlatform (calmEnv newYear 0) Db.empty).1.isOk = true := by
    decide +kernel
  cases hFirst : (saleRequest.run utcPlatform (calmEnv newYear 0) Db.empty).1 with
  | error e => rw [hFirst] at hOk; cases hOk
  | ok result =>
    refine ⟨result, rfl, ?_⟩
    have h := key_takes_effect_once utcPlatform [] [(calmEnv newYear 16, refundRequest)]
      (calmEnv newYear 0) (calmEnv newYear 32) saleRequest saleRequest (by decide +kernel)
    obtain ⟨-, hLater⟩ := h.2.1 result (committed_of_ok hFirst)
    have hPrepare : (saleRequest.prepare utcPlatform (calmEnv newYear 32)).isOk = true := by
      decide +kernel
    cases hPrepared : saleRequest.prepare utcPlatform (calmEnv newYear 32) with
    | error e => rw [hPrepared] at hPrepare; cases hPrepare
    | ok q => exact ((hLater rfl).2 q.1 ⟨⟨q.2, hPrepared⟩, rfl, rfl, rfl⟩).1 rfl rfl

end Cashflow.Ledger
