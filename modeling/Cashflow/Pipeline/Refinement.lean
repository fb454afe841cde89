import Cashflow.Pipeline.Agreement
import Cashflow.Pipeline.Snapshot
import Cashflow.Pipeline.Survival

/-!
# Pipeline — the two databases, seen from outside

Between the commit of an entry and the moment its event takes effect lie leases,
publications, redeliveries and crashes. Seen from the two databases there is none
of that: an entry is posted, an event of a posted entry is applied, a recomputation
goes on.

* `SameBooks` — two ledgers that differ in the state of publication only;
* `reached_payload` — an event read from a row of the outbox says what an entry says;
* `exec_effect` — what one happening does to the two databases;
* `pipeline_refines_commits` — every run of the pipeline is a run of commits.
-/

namespace Cashflow.Pipeline

open Lib Ledger Outbox Consolidation
open Outbox.Leases (claim_ok)

/-! ## Ledgers up to publication -/

/-- The same books; the rows of the outbox may differ in their leases and in whether
they are published. -/
structure SameBooks (d d₀ : Db) : Prop where
  positions : d.positions = d₀.positions
  entries : d.entries = d₀.entries
  idempotency : d.idempotency = d₀.idempotency
  outbox : d.outbox.rows.map identity = d₀.outbox.rows.map identity

namespace SameBooks

variable {platform : Platform} {d d' d₀ : Db}

/-- A ledger has its own books. -/
theorem refl (d : Db) : SameBooks d d := ⟨rfl, rfl, rfl, rfl⟩

/-- And so on. -/
theorem trans {d₁ : Db} (h : SameBooks d d₁) (h' : SameBooks d₁ d₀) : SameBooks d d₀ :=
  ⟨h.positions.trans h'.positions, h.entries.trans h'.entries, h.idempotency.trans h'.idempotency,
    h.outbox.trans h'.outbox⟩

/-- The same books give the same next position. -/
theorem lastPosition (h : SameBooks d d₀) (m : UUID) : d.lastPosition m = d₀.lastPosition m := by
  rw [Db.lastPosition, Db.lastPosition, Db.position?, Db.position?, h.positions]

/-- And have the same events. -/
theorem exists_row (h : SameBooks d d₀) {r : OutboxRow} (hr : r ∈ d.outbox) :
    ∃ r₀ ∈ d₀.outbox, identity r₀ = identity r := by
  have hMem : identity r ∈ d₀.outbox.rows.map identity := h.outbox ▸ List.mem_map_of_mem hr
  exact List.mem_map.mp hMem

/-- A clash of rows is a matter of their identities. -/
theorem clash_congr {r r₀ q : OutboxRow} (h : identity r₀ = identity r) :
    outboxSchema.clash r₀ q = outboxSchema.clash r q := by
  have hEvent : r₀.eventID = r.eventID := congrArg Identity.eventID h
  have hAggregate : r₀.aggregateID = r.aggregateID := congrArg Identity.aggregateID h
  have hType : r₀.eventType = r.eventType := congrArg Identity.eventType h
  simp only [outboxSchema, hEvent, hAggregate, hType]

/-- What posts an entry in one of them posts it in the other. -/
theorem posted (h : SameBooks d d₀) (hPosted : Posted platform d d') :
    ∃ d₀', Posted platform d₀ d₀' ∧ SameBooks d' d₀' := by
  obtain ⟨env, req, p, hAttempts, hPosts, hMade⟩ := hPosted
  have hUnique := d'.outbox.unique
  rw [hPosts.outbox, List.pairwise_append] at hUnique
  -- the new row clashes with no row of the other outbox either
  have hFree : d₀.outbox.conflicts p.event = false := by
    rw [Table.conflicts_eq_false]
    intro r₀ hr₀
    have hMem : identity r₀ ∈ d.outbox.rows.map identity := h.outbox ▸ List.mem_map_of_mem hr₀
    obtain ⟨r, hr, hSame⟩ := List.mem_map.mp hMem
    rw [clash_congr hSame.symm]
    exact hUnique.2.2 r hr p.event List.mem_cons_self
  have hCheck : outboxSchema.check p.event = true := by
    refine d'.outbox.checked p.event ?_
    rw [hPosts.outbox]
    exact List.mem_append_right _ List.mem_cons_self
  have hLast := h.lastPosition
  refine ⟨{ d' with outbox := d₀.outbox.push p.event hCheck hFree },
    ⟨env, req, p, hAttempts, ?_, { hMade with makes := hMade.makes.congr h.entries.symm }⟩,
    ⟨rfl, rfl, rfl, ?_⟩⟩
  · exact {
      merchant := hPosts.merchant
      next := by rw [← hLast]; exact hPosts.next
      positions := fun m => by rw [← hLast]; exact hPosts.positions m
      entries := by rw [← h.entries]; exact hPosts.entries
      idempotency := by rw [← h.idempotency]; exact hPosts.idempotency
      outbox := rfl }
  · rw [hPosts.outbox, List.map_append, h.outbox]
    exact List.map_append.symm

/-- Rewriting rows under their identities leaves the books. -/
theorem rewrite (d : Db) {chosen : OutboxRow → Bool} {f : OutboxRow → OutboxRow}
    {hIdentity : ∀ r, identity (f r) = identity r}
    {hCheck : ∀ r, outboxSchema.check r = true → outboxSchema.check (f r) = true} :
    SameBooks { d with outbox := Outbox.rewrite d.outbox chosen f hIdentity hCheck } d := by
  refine ⟨rfl, rfl, rfl, ?_⟩
  show ((d.outbox.rows.map fun r => if chosen r then f r else r).map identity) = _
  rw [List.map_map]
  refine List.map_congr_left fun r _ => ?_
  show identity (if chosen r then f r else r) = identity r
  split
  · exact hIdentity r
  · rfl

end SameBooks

/-! ## What the payloads say -/

/-- The consumer reads from the payload of a posting what the posted entry says. -/
theorem mirrors_of_posting {platform : Platform} {env : Ledger.Env} {req : Request} {d : Db}
    {p : Posting} (hAttempts : req.Attempts env p.attempt)
    (hMade : p.MadeBy platform.jsonb env req d) {event : EntryConfirmed}
    (hParse : parseEntryConfirmed p.event.payload = .ok event) :
    Mirrors p.entry.row event.canonical := by
  obtain ⟨eventID, text, payload, -, hMarshal, hCast, hEvent⟩ := hMade.event
  have hPayload : p.event.payload = payload := by rw [hEvent]; rfl
  obtain ⟨ms, hRead, hPerm, hYear, hYear'⟩ := read_payload hMarshal hCast
    (isTraceparent_of_validate hAttempts.traceparent)
  rw [hPayload, parseEntryConfirmed_members hRead (hPerm.trans (payload_perm.map _))
    ⟨hYear, hYear', hMade.writable.year⟩, peel] at hParse
  obtain ⟨-, -, hEq⟩ := hParse
  cases hEq
  rw [canonical_canonical]
  exact ⟨rfl, rfl, rfl, rfl, rfl, rfl⟩

/-- A payload that parses says what an entry of the ledger says. -/
theorem reached_payload {platform : Platform} {d : Db} (h : Reached platform d) :
    ∀ r ∈ d.outbox, ∀ event, parseEntryConfirmed r.payload = .ok event →
      ∃ e ∈ d.entries, Mirrors e event.canonical := by
  refine @Reachable.invariant _ _ _ (fun d : Db => ∀ r ∈ d.outbox, ∀ event,
    parseEntryConfirmed r.payload = .ok event → ∃ e ∈ d.entries, Mirrors e event.canonical) ?_ ?_
      d h
  · intro r hr
    cases hr
  · rintro d d' hRows ⟨env, req, p, hAttempts, hPosts, hMade⟩ r hr event hParse
    rw [Table.mem_def, hPosts.outbox, List.mem_append, List.mem_singleton] at hr
    rcases hr with hr | rfl
    · obtain ⟨e, he, hMirrors⟩ := hRows r hr event hParse
      exact ⟨e, hPosts.mem_entries.mpr (.inl he), hMirrors⟩
    · exact ⟨p.entry.row, hPosts.mem_entries.mpr (.inr rfl),
        mirrors_of_posting hAttempts hMade hParse⟩

/-- Commits whose calls of the projector meet a guard. -/
inductive CommitIf (guard : Store → Consolidation.Call → Prop) (platform : Platform) :
    Services → Services → Prop
  | post {w : Services} {d : Db} (h : Posted platform w.ledger d) :
    CommitIf guard platform w { w with ledger := d }
  | call {w : Services} (c : Consolidation.Call) (h : FromLedger w.ledger c)
      (hGuard : guard w.store c) :
    CommitIf guard platform w { w with store := w.store.exec c }

/-- A guarded commit is a commit. -/
theorem CommitIf.commit {guard : Store → Consolidation.Call → Prop} {platform : Platform}
    {s s' : Services}
    (h : CommitIf guard platform s s') : Commit platform s s' := by
  cases h with
  | post hPosted => exact .post hPosted
  | call c hFrom hGuard => exact .call c hFrom

/-- And what is reached by guarded ones is reached. -/
theorem CommitIf.reachable {guard : Store → Consolidation.Call → Prop} {platform : Platform}
    {s s' : Services}
    (h : Reachable (CommitIf guard platform) s s') : Reachable (Commit platform) s s' := by
  induction h with
  | start => exact .start
  | next _ hCommit ih => exact ih.next hCommit.commit

namespace Delivery

/-! ## One happening -/

/-- The call that a happening makes of the projector. -/
def calls (config : Config) (w : World) : Happening → Option Consolidation.Call
  | .process c env =>
    match w.consumers c with
    | .handling delivery _ =>
      -- what fails the checks is not applied
      match checkDelivery config.consumer delivery with
      | .ok event => some (.apply env.apply event.canonical)
      | .error _ => none
    | _ => none
  | .resumeNext env merchantID => some (.resumeNext env merchantID)
  | _ => none

/-- What a happening does to the two databases. -/
inductive Effect (config : Config) (w w' : World) (happening : Happening) : Prop
  | none (hBooks : SameBooks w'.ledger w.ledger)
      (hStore : w'.projection.store = w.projection.store)
  | post (hPosted : Posted config.platform w.ledger w'.ledger)
      (hStore : w'.projection.store = w.projection.store)
  | call (c : Consolidation.Call) (hCall : calls config w happening = some c)
      (hLedger : w'.ledger = w.ledger) (hStore : w'.projection.store = w.projection.store.exec c)

/-- A delivery that passes was parsed from its body. -/
theorem checkDelivery_parse {config : ConsumerConfig} {delivery : Message} {event : EntryConfirmed}
    (h : checkDelivery config delivery = .ok event) :
    parseEntryConfirmed delivery.body = .ok event := by
  unfold checkDelivery at h
  dsimp only at h
  split at h
  · cases h
  split at h
  · cases h
  split at h
  · cases h
  split at h
  · cases h
  · rename_i event' hParse
    split at h
    · cases h
      exact hParse
    · cases h

/-- A delivery calls the projector once, when it is accepted. -/
theorem processDelivery_store (config : ConsumerConfig) (env : ConsumerEnv) (p : Projection)
    (delivery : Message) :
    (processDelivery config env p delivery).2.store = p.store ∨
      ∃ event, checkDelivery config delivery = .ok event ∧
        (processDelivery config env p delivery).2.store =
          p.store.exec (.apply env.apply event.canonical) := by
  -- the projector validates, and then applies
  have hApply : ∀ event : EntryConfirmed, (Projector.apply env.apply p.store event).2 = p.store ∨
      (Projector.apply env.apply p.store event).2 =
        p.store.exec (.apply env.apply event.canonical) := by
    intro event
    unfold Projector.apply
    split
    · exact .inl rfl
    · exact .inr rfl
  unfold processDelivery
  split
  · exact .inl (escalate_records config env p _ _ _).1
  · rename_i event hCheck
    dsimp only
    split
    · rename_i applyErr _
      rw [(classifyApplyFailure_store config env _ event applyErr).1]
      exact (hApply event).imp_right fun h => ⟨event, hCheck, h⟩
    · -- clearing the pending row leaves the projection's tables alone
      have hClear : ∀ q : Projection,
          (if env.clearFails then q else clearPending q event.eventID).store = q.store := by
        intro q
        split
        · rfl
        · unfold clearPending
          split
          · rfl
          · rfl
      rw [hClear]
      exact (hApply event).imp_right fun h => ⟨event, hCheck, h⟩

namespace World

variable {w : World}

/-- A claim changes leases only. -/
theorem claim_effect (config : Config) (w : World) (k : Nat) (owner : Text) (lease : Int)
    (env : ClaimEnv) (learns : Bool) :
    SameBooks (w.claim config k owner lease env learns).ledger w.ledger ∧
      (w.claim config k owner lease env learns).projection = w.projection := by
  unfold World.claim
  split
  · split
    · exact ⟨.refl _, rfl⟩
    · rename_i events outbox hClaim
      obtain ⟨-, hIdentity, hCheck, rfl⟩ := claim_ok hClaim
      split
      · exact ⟨.rewrite _, rfl⟩
      · exact ⟨.rewrite _, rfl⟩
  · exact ⟨.refl _, rfl⟩

/-- A statement changes the lease and publication columns only. -/
theorem statement_effect (config : Config) (w : World) (i : Nat) (now : Int) (takesEffect : Bool) :
    SameBooks (w.statement config i now takesEffect).ledger w.ledger ∧
      (w.statement config i now takesEffect).projection = w.projection := by
  unfold World.statement
  split
  · -- no such statement
    exact ⟨.refl _, rfl⟩
  · rename_i statement _
    dsimp only
    split
    · rename_i outbox hEval
      refine ⟨?_, rfl⟩
      cases statement with
      | markPublished event =>
        obtain ⟨canonical, -, rfl⟩ := settle_rewrites hEval
        exact .rewrite _
      | markFailed event delay lastError =>
        simp only [Statement.eval, Outbox.markFailed] at hEval
        -- a negative delay is refused
        split at hEval
        · cases hEval
        · obtain ⟨canonical, -, rfl⟩ := settle_rewrites hEval
          exact .rewrite _
    · exact ⟨.refl _, rfl⟩

/-- Processing a delivery applies its event, or nothing. -/
theorem process_effect (config : Config) (w : World) (c : Nat) (env : ConsumerEnv) :
    Effect config w (w.process config c env) (.process c env) := by
  unfold World.process
  split
  · rename_i delivery attached hHandling
    rcases processDelivery_store config.consumer env w.projection delivery with
      hSame | ⟨event, hCheck, hStore⟩
    · exact .none (.refl _) hSame
    · refine .call (.apply env.apply event.canonical) ?_ rfl hStore
      simp only [calls, hHandling, hCheck]
  · exact .none (.refl _) rfl

/-- A happening moves the books of the ledger by a posting, the projection by a call,
or neither. -/
theorem exec_effect (config : Config) (w : World) (happening : Happening) :
    Effect config w (w.exec config happening) happening := by
  -- what only the parties and the broker see
  have hQuiet : ∀ {w' : World}, w'.ledger = w.ledger → w'.projection = w.projection →
      Effect config w w' happening :=
    fun hLedger hProjection => .none (hLedger ▸ .refl _) (congrArg Projection.store hProjection)
  have hAbandon : ∀ k worker, (w.abandon k worker).ledger = w.ledger ∧
      (w.abandon k worker).projection = w.projection := by
    intro k worker
    unfold World.abandon
    split <;> exact ⟨rfl, rfl⟩
  have hTakeBack : ∀ c consumer, (w.takeBack c consumer).ledger = w.ledger ∧
      (w.takeBack c consumer).projection = w.projection := by
    intro c consumer
    unfold World.takeBack
    split <;> exact ⟨rfl, rfl⟩
  -- two happenings touch the ledger's books or the projection's tables; the others are quiet
  cases happening with
  | request env req =>
    rcases run_cases config.platform env req w.ledger with hSame | ⟨p, hAttempts, hPosts, hMade, -⟩
    · exact hQuiet hSame rfl
    · exact .post ⟨env, req, p, hAttempts, hPosts, hMade⟩ rfl
  | claim k owner lease env learns =>
    obtain ⟨hBooks, hProjection⟩ := claim_effect config w k owner lease env learns
    exact .none hBooks (congrArg Projection.store hProjection)
  | statement i now takesEffect =>
    obtain ⟨hBooks, hProjection⟩ := statement_effect config w i now takesEffect
    exact .none hBooks (congrArg Projection.store hProjection)
  | process c env => exact process_effect config w c env
  | resumeNext env merchantID => exact .call (.resumeNext env merchantID) rfl rfl rfl
  | workerCrash k => exact hQuiet (hAbandon k _).1 (hAbandon k _).2
  | disconnect c => exact hQuiet (hTakeBack c _).1 (hTakeBack c _).2
  | consumerCrash c => exact hQuiet (hTakeBack c _).1 (hTakeBack c _).2
  | records pending deadLetters => exact .none (.refl _) rfl
  | send k =>
    refine hQuiet ?_ ?_ <;> simp only [World.exec, World.send] <;> split <;> try rfl
    all_goals split <;> rfl
  | refuse k =>
    simp only [World.exec, World.refuse]
    split
    · exact hQuiet rfl rfl
    · exact hQuiet (hAbandon k _).1 (hAbandon k _).2
    · exact hQuiet rfl rfl
  | route k => refine hQuiet ?_ ?_ <;> simp only [World.exec, World.route] <;> split <;> rfl
  | confirm k => refine hQuiet ?_ ?_ <;> simp only [World.exec, World.confirm] <;> split <;> rfl
  | settle k delay lastError =>
    refine hQuiet ?_ ?_ <;> simp only [World.exec, World.settle] <;> split <;> rfl
  | arrive i => refine hQuiet ?_ ?_ <;> simp only [World.exec, World.arrive] <;> split <;> rfl
  | deliver c i => refine hQuiet ?_ ?_ <;> simp only [World.exec, World.deliver] <;> split <;> rfl
  | answer c => refine hQuiet ?_ ?_ <;> simp only [World.exec, World.answer] <;> split <;> rfl
  | exhaust i => refine hQuiet ?_ ?_ <;> simp only [World.exec, World.exhaust] <;> split <;> rfl

/-! ## Every run -/

/-- The two services as commits have left them. -/
structure Shows (w : World) (s : Services) : Prop where
  ledger : SameBooks w.ledger s.ledger
  store : s.store = w.projection.store

/-- A call that a happening makes is about an entry of the ledger. -/
theorem calls_from_ledger {platform : Platform} {config : Config} {s : Services} (hSafe : w.Safe)
    (hReached : Reached platform s.ledger) (hShows : w.Shows s) {happening : Happening}
    {c : Consolidation.Call} (hCall : calls config w happening = some c) : FromLedger s.ledger c := by
  unfold calls at hCall
  split at hCall
  · rename_i k env
    split at hCall
    · rename_i delivery attached hHandling
      split at hCall
      · rename_i event hCheck
        cases hCall
        have hGenuine : w.Genuine delivery := by
          have hOk := hSafe.consumers k
          -- the delivery was made from a row of the outbox, which the other ledger has, too
          rwa [hHandling] at hOk
        obtain ⟨r, hr, hCarries⟩ := hGenuine
        obtain ⟨r₀, hr₀, hSame⟩ := hShows.ledger.exists_row hr
        have hBody : delivery.body = r₀.payload :=
          hCarries.body.trans (congrArg Identity.payload hSame).symm
        have hParse : parseEntryConfirmed r₀.payload = .ok event :=
          hBody ▸ (checkDelivery_parse hCheck)
        obtain ⟨e, he, hMirrors⟩ := reached_payload hReached r₀ hr₀ event hParse
        exact ⟨e, he, (canonical_canonical event).symm ▸ hMirrors⟩
      · cases hCall
    · cases hCall
  · cases hCall
    trivial
  · cases hCall

/-- One happening is one commit or none. -/
theorem refines_step {config : Config} {guard : Store → Consolidation.Call → Prop} {s : Services}
    (hSafe : w.Safe) (hReached : Reached config.platform s.ledger) (hShows : w.Shows s)
    {happening : Happening}
    (hGuard : ∀ c ∈ calls config w happening, guard w.projection.store c) :
    ∃ s', (s' = s ∨ CommitIf guard config.platform s s') ∧ (w.exec config happening).Shows s' := by
  rcases exec_effect config w happening with
    ⟨hBooks, hStore⟩ | ⟨hPosted, hStore⟩ | ⟨c, hCall, hLedger, hStore⟩
  · exact ⟨s, .inl rfl, hBooks.trans hShows.ledger, hShows.store.trans hStore.symm⟩
  · obtain ⟨d, hPosted', hBooks⟩ := hShows.ledger.posted hPosted
    exact ⟨_, .inr (.post hPosted'), hBooks, hShows.store.trans hStore.symm⟩
  · have hFrom := calls_from_ledger hSafe hReached hShows hCall
    refine ⟨_, .inr (.call c hFrom (hShows.store ▸ hGuard c hCall)), ?_, ?_⟩
    · rw [hLedger]
      exact hShows.ledger
    · rw [hStore, hShows.store]

/-- A guard that holds of every call the happenings make holds along the commits. -/
theorem refines_run (config : Config) (guard : Store → Consolidation.Call → Prop)
    (happenings : List Happening)
    (hGuard : Along (World.exec config) (fun w happening =>
      ∀ c ∈ calls config w happening, guard w.projection.store c) World.start happenings) :
    ∃ s, Reachable (CommitIf guard config.platform) .start s ∧
      (run (World.exec config) World.start happenings).Shows s := by
  have hInv := run_invariant (fun w : World => w.Safe ∧
      ∃ s, Reachable (CommitIf guard config.platform) .start s ∧ w.Shows s) _ ?_ happenings
    World.start ⟨safe_start, .start, .start, .refl _, rfl⟩ hGuard
  · exact hInv.2
  rintro w happening ⟨hSafe, s, hReach, hShows⟩ hCalls
  refine ⟨hSafe.exec config happening, ?_⟩
  have hSound := (sound_reachable sound_start (CommitIf.reachable hReach)).1
  obtain ⟨s', rfl | hCommit, hShows'⟩ := refines_step hSafe hSound.ledger hShows hCalls
  · exact ⟨s', hReach, hShows'⟩
  · exact ⟨s', hReach.next hCommit, hShows'⟩

end World

/-- Whatever the workers, the broker and the consumers go through, the two databases
are as commits have left them: the ledger posts entries, and the projection applies
events that say what an entry posted before says, or goes on with a recomputation.
Whatever happens next is one such commit, or the databases do not see it. -/
theorem pipeline_refines_commits (config : Config) (happenings : List Happening) :
    let w := run (World.exec config) World.start happenings
    ∃ s, Reachable (Commit config.platform) .start s ∧ w.Shows s ∧
      ∀ happening, ∃ s', (s' = s ∨ Commit config.platform s s') ∧
        (w.exec config happening).Shows s' := by
  intro w
  obtain ⟨s, hReach, hShows⟩ := World.refines_run config (fun _ _ => True) happenings
    (along_of_forall _ fun _ _ _ _ _ => trivial)
  have hReach := CommitIf.reachable hReach
  refine ⟨s, hReach, hShows, fun happening => ?_⟩
  obtain ⟨s', hStep, hShows'⟩ := @World.refines_step w config (fun _ _ => True) s
    (World.safe_run config happenings) (sound_reachable sound_start hReach).1.ledger hShows
    happening fun _ _ => trivial
  exact ⟨s', hStep.imp_right CommitIf.commit, hShows'⟩

end Delivery

end Cashflow.Pipeline
