import Cashflow.Ledger.OwnRows
import Cashflow.Ledger.Pagination
import Cashflow.Ledger.Server

/-!
# Ledger — merchants do not interfere

An rpc of an identity of a merchant runs on the shared ledger as on the rows of
the merchant alone. The guard in front of `GetEntry` and `CreateReversal` looks
up an entry by its identifier only, and refuses one of another merchant as it
refuses one that does not exist; the queries behind it stay with the merchant.

Main results:

* `guarded_only`, `getEntry_only`, `listEntries_only` — the guard and the reads;
* `handle_only`, `serve_only` — one rpc, and any sequence of them;
* `merchants_do_not_interfere` — two ledgers that agree on the rows of a
  merchant cannot be told apart by its requests.
-/

namespace Cashflow.Ledger

open Lib Tenancy

variable {m : UUID} {d : Db}

/-! ## Reads -/

/-- The rows that reverse an entry of the merchant are its own. -/
theorem reversal_own (hForeign : Foreign m (d.others m)) {e : EntryRow} (he : e ∈ d.entries)
    (hMerchant : e.merchantID = m) {r : EntryRow} (hr : r ∈ d.entries)
    (hOriginal : r.originalEntryID = some e.id) : r.merchantID = m := by
  by_contra hOther
  exact hForeign.not_reversed (others_id_ne he hMerchant) r (mem_others hr hOther) hOriginal

/-- An entry's reversal is the merchant's own. -/
theorem joinReversal_only (hForeign : Foreign m (d.others m)) {e : EntryRow} (he : e ∈ d.entries)
    (hMerchant : e.merchantID = m) : (d.only m).joinReversal e = d.joinReversal e := by
  have hFilter : (d.only m).entries.rows.filter (fun r => decide (r.originalEntryID = some e.id)) =
      d.entries.rows.filter fun r => decide (r.originalEntryID = some e.id) :=
    Table.filter_restrict fun r hr hOriginal =>
      beq_iff_eq.mpr (reversal_own hForeign he hMerchant hr (of_decide_eq_true hOriginal))
  rw [Db.joinReversal, Db.joinReversal, hFilter]

/-- Reading an entry reads the merchant's rows alone. -/
theorem getStored_only {merchantID entryID : ID} (fault : Option DbError)
    (hForeign : Foreign m (d.others m)) (hMerchant : merchantID.uuid = m) :
    getStored fault (d.only m) merchantID entryID = getStored fault d merchantID entryID := by
  have hRows : (d.only m).entries.rows.filter
      (fun e => decide (e.merchantID = merchantID.uuid ∧ e.id = entryID.uuid)) = d.entries.rows.filter
      fun e => decide (e.merchantID = merchantID.uuid ∧ e.id = entryID.uuid) :=
    Table.filter_restrict fun e _ he => beq_iff_eq.mpr ((of_decide_eq_true he).1.trans hMerchant)
  rw [getStored, getStored, hRows, List.flatMap_congr fun e he => ?_]
  obtain ⟨he, hKey⟩ := List.mem_filter.mp he
  exact joinReversal_only hForeign he ((of_decide_eq_true hKey).1.trans hMerchant)

/-- And so does what matches a filter. -/
theorem matching_only (hForeign : Foreign m (d.others m)) (filter : ListFilter)
    (highWater : Int64) :
    (d.only m).matching m filter highWater = d.matching m filter highWater := by
  have hFilter : (d.only m).entries.rows.filter (EntryRow.listed m filter highWater) =
      d.entries.rows.filter (EntryRow.listed m filter highWater) :=
    Table.filter_restrict fun e _ he => beq_iff_eq.mpr (listed_iff.mp he).1
  rw [matching_eq, matching_eq, hFilter]
  refine List.map_congr_left fun e he => ?_
  obtain ⟨he, hListed⟩ := List.mem_filter.mp he
  have hFind : (d.only m).entries.find?
      (fun r => decide (r.originalEntryID = some e.id ∧ r.position ≤ highWater)) =
      d.entries.find? fun r => decide (r.originalEntryID = some e.id ∧ r.position ≤ highWater) :=
    Table.find?_restrict fun r hr hKey => beq_iff_eq.mpr
      (reversal_own hForeign he (listed_iff.mp hListed).1 hr (of_decide_eq_true hKey).1)
  exact congrArg (fun found => (e, Option.map EntryRow.id found)) hFind

/-- And a page of it. -/
theorem listStored_only {faults : ReadFaults} {merchantID : ID} {filter : ListFilter} {limit : Nat}
    {scope : ListScope} (hForeign : Foreign m (d.others m)) (hMerchant : merchantID.uuid = m) :
    listStored faults (d.only m) merchantID filter limit scope =
      listStored faults d merchantID filter limit scope := by
  subst hMerchant
  have hLast : (d.only merchantID.uuid).lastPosition merchantID.uuid =
      d.lastPosition merchantID.uuid := by
    rw [Db.lastPosition, Db.lastPosition, position?_only]
  have hMark : readHighWater faults (d.only merchantID.uuid) merchantID scope =
      readHighWater faults d merchantID scope := by
    rw [readHighWater, readHighWater, hLast]
  have hSelect : ∀ highWater, (d.only merchantID.uuid).selectEntries merchantID.uuid filter
      highWater scope.after (limit + 1) =
      d.selectEntries merchantID.uuid filter highWater scope.after (limit + 1) := by
    intro highWater
    rw [Db.selectEntries, Db.selectEntries, matching_only hForeign]
  simp only [listStored, hMark, hSelect]

/-! ## The guard -/

/-- An identity of the merchant: its token names the merchant. -/
def IdentityOf (m : UUID) (identity : Identity) : Prop :=
  ∃ id : ID, id.text = identity.merchantID ∧ id.uuid = m

/-- The identity names the merchant, in any letters. -/
theorem IdentityOf.lower {identity : Identity} (h : IdentityOf m identity) :
    lower identity.merchantID = m.text := by
  obtain ⟨id, hText, rfl⟩ := h
  rw [← hText]
  rfl

/-- What the service parses the merchant to. -/
theorem IdentityOf.parse {identity : Identity} (h : IdentityOf m identity) :
    ∃ id : ID, parseMerchant identity.merchantID = .ok id ∧ id.uuid = m := by
  obtain ⟨id, hText, hId⟩ := h
  exact ⟨id, mapError_ok.mpr (parseID_ok.mpr hText), hId⟩

/-- All identifiers take the same number of bytes. -/
theorem length_utf8_id {value : Text} (h : isID value = true) : (utf8 value).length = 36 := by
  have hShape : matchesAll idPattern value = true := (Bool.and_eq_true_iff.mp h).1
  have hClass : ∀ p ∈ idPattern, ∀ c, p c = true → isAscii c = true := by
    intro p hp c hpc
    rcases idPattern_class hp with rfl | rfl
    · exact isAscii_of_isHex hpc
    · rw [beq_iff_eq.mp hpc]
      rfl
  rw [length_utf8_ascii (matchesAll_forall hClass hShape), matchesAll_length hShape]
  rfl

section Guard

variable {around : Surroundings} {identity : Identity} {entryIDText : Text} {entryID : ID}

/-- The rows of an identifier: one at most. -/
theorem rows_of_id {e : EntryRow} (he : e ∈ d.entries) (hId : e.id = entryID.uuid) :
    (d.entries.rows.filter fun e => decide (e.id = entryID.uuid)) = [e] :=
  Table.filter_eq_of_mem he (decide_eq_true hId) fun _ ha =>
    decide_eq_true (Or.inl ((of_decide_eq_true ha).trans hId.symm))

/-- An entry that is not there has no rows. -/
theorem rows_of_absent (h : ∀ e ∈ d.entries, e.id ≠ entryID.uuid) :
    (d.entries.rows.filter fun e => decide (e.id = entryID.uuid)) = [] :=
  List.filter_eq_nil_iff.mpr fun e he hId => h e he (of_decide_eq_true hId)

/-- The owner of an entry, by the rows of its identifier. -/
theorem ownerOf_eq (hText : parseID entryIDText = .ok entryID) :
    Ledger.ownerOf around.owner d entryIDText =
      ((queryRow around.owner ((d.entries.rows.filter fun e => decide (e.id = entryID.uuid)).map
        EntryRow.merchantID)).mapError (noEntry "get ledger entry owner")).map UUID.text := by
  rw [Ledger.ownerOf, hText]
  simp only [bind, Except.bind, storedOwner]
  cases (queryRow around.owner _).mapError (noEntry "get ledger entry owner") <;> rfl

/-- The status a caller gets for an entry that is not its own. -/
def refusal : Option DbError → Status
  | none => ⟨.notFound, "entry not found".toList⟩
  | some .noRows => ⟨.notFound, "entry not found".toList⟩
  | some _ => ⟨.internal, "tenant ownership unavailable".toList⟩

/-- A read that fails fails before it looks. -/
theorem guarded_fault {cause : DbError} (hFault : around.owner = some cause)
    (hText : parseID entryIDText = .ok entryID) :
    Server.guarded around identity d entryIDText = .error (refusal around.owner) := by
  have hOwner := @ownerOf_eq d around entryIDText entryID hText
  rw [hFault] at hOwner
  simp only [Server.guarded, authorize, Guard.authorize, Server.ownerOf, hFault, hOwner]
  cases cause <;> rfl

/-- An entry that is not there is refused. -/
theorem guarded_absent (hText : parseID entryIDText = .ok entryID)
    (hAbsent : ∀ e ∈ d.entries, e.id ≠ entryID.uuid) :
    Server.guarded around identity d entryIDText = .error (refusal around.owner) := by
  cases hFault : around.owner with
  | some cause => rw [guarded_fault hFault hText, hFault]
  | none =>
    have hNobody : Server.ownerOf around d entryIDText = .ok none := by
      rw [Server.ownerOf, ownerOf_eq hText, rows_of_absent hAbsent, hFault]
      rfl
    rw [Server.guarded, authorize_absent hNobody]
    rfl

/-- The guard answers for an entry of another merchant as for one that does not
exist. -/
theorem guarded_foreign {e : EntryRow} (hIdentity : IdentityOf m identity)
    (hText : parseID entryIDText = .ok entryID) (he : e ∈ d.entries) (hId : e.id = entryID.uuid)
    (hMerchant : e.merchantID ≠ m) :
    Server.guarded around identity d entryIDText = .error (refusal around.owner) := by
  cases hFault : around.owner with
  | some cause => rw [guarded_fault hFault hText, hFault]
  | none =>
    have hOwner : Server.ownerOf around d entryIDText = .ok (some e.merchantID.text) := by
      rw [Server.ownerOf, ownerOf_eq hText, rows_of_id he hId, hFault]
      rfl
    obtain ⟨id, hIdText, hIdMerchant⟩ := hIdentity
    have hLength : (utf8 e.merchantID.text).length = (utf8 identity.merchantID).length := by
      rw [← hIdText, length_utf8_id e.merchantID.wellFormed, length_utf8_id id.wellFormed]
    -- the owner is in lower case, so an identity in other letters is refused too
    have hDiffer : e.merchantID.text ≠ identity.merchantID := by
      intro hEq
      refine hMerchant (UUID.ext ?_)
      rw [← hIdMerchant, ← e.merchantID.canonical, hEq, ← hIdText]
      rfl
    rw [Server.guarded, authorize_foreign hOwner hLength hDiffer]
    rfl

/-- The guard decides from the rows of the merchant. -/
theorem guarded_only (hIdentity : IdentityOf m identity) :
    Server.guarded around identity (d.only m) entryIDText =
      Server.guarded around identity d entryIDText := by
  cases hText : parseID entryIDText with
  | error cause =>
    -- a text that is no identifier is refused without a query
    have hOwner : ∀ d : Db, Ledger.ownerOf around.owner d entryIDText = .error cause := fun d => by
      rw [Ledger.ownerOf, hText]
      rfl
    simp only [Server.guarded, authorize, Guard.authorize, Server.ownerOf, hOwner]
  | ok entryID =>
    by_cases hOther : ∃ e ∈ d.entries, e.id = entryID.uuid ∧ e.merchantID ≠ m
    · -- another merchant's entry is refused in the words for none at all
      obtain ⟨e, he, hId, hMerchant⟩ := hOther
      rw [guarded_foreign hIdentity hText he hId hMerchant]
      refine guarded_absent hText fun e' he' hId' => ?_
      obtain ⟨he', hOwn⟩ := Table.mem_restrict.mp he'
      rw [entry_eq_of_id he' he (hId'.trans hId.symm)] at hOwn
      exact hMerchant (beq_iff_eq.mp hOwn)
    · -- the entry is the merchant's, or there is none
      have hRows : (d.only m).entries.rows.filter (fun e => decide (e.id = entryID.uuid)) =
          d.entries.rows.filter fun e => decide (e.id = entryID.uuid) := by
        refine Table.filter_restrict fun e he hId => beq_iff_eq.mpr ?_
        by_contra hMerchant
        exact hOther ⟨e, he, of_decide_eq_true hId, hMerchant⟩
      have hOwner : Ledger.ownerOf around.owner (d.only m) entryIDText =
          Ledger.ownerOf around.owner d entryIDText := by
        rw [ownerOf_eq hText, ownerOf_eq hText, hRows]
      simp only [Server.guarded, authorize, Guard.authorize, Server.ownerOf, hOwner]

end Guard

/-! ## Rpcs -/

section Rpcs

variable {s : Server} {around : Surroundings} {identity : Identity}

/-- Getting an entry depends on the merchant's rows alone. -/
theorem getEntry_only {entryID : Text} (hForeign : Foreign m (d.others m))
    (hIdentity : IdentityOf m identity) :
    Server.getEntry around identity entryID (d.only m) =
      Server.getEntry around identity entryID d := by
  obtain ⟨merchantID, hParse, hMerchant⟩ := hIdentity.parse
  rw [Server.getEntry, Server.getEntry, guarded_only hIdentity]
  simp only [Ledger.getEntry, hParse, getStored_only around.entry hForeign hMerchant, bind,
    Except.bind]

/-- And so does listing them. -/
theorem listEntries_only {req : ListEntriesRequest} (hForeign : Foreign m (d.others m))
    (hIdentity : IdentityOf m identity) :
    s.listEntries around identity req (d.only m) = s.listEntries around identity req d := by
  obtain ⟨merchantID, hParse, hMerchant⟩ := hIdentity.parse
  simp only [Server.listEntries, Ledger.listEntries, hParse, bind, Except.bind,
    listStored_only hForeign hMerchant]

/-- One rpc of the merchant. -/
theorem handle_only {c : Call} (hForeign : Foreign m (d.others m))
    (hFresh : around.env.Fresh (d.others m))
    (hIdentity : ∀ identity, c.identity = some identity → IdentityOf m identity) :
    s.handle around c (d.only m) = ((s.handle around c d).1, (s.handle around c d).2.only m) ∧
      (s.handle around c d).2.others m = d.others m := by
  -- what posts does so for the caller's merchant, whatever the request says
  have hRun : ∀ req : Request, lower req.merchantID = m.text →
      (Server.answer (req.run s.platform around.env (d.only m)).1,
          (req.run s.platform around.env (d.only m)).2) =
        (Server.answer (req.run s.platform around.env d).1,
          (req.run s.platform around.env d).2.only m) ∧
      (req.run s.platform around.env d).2.others m = d.others m := by
    intro req hReq
    obtain ⟨hRun, hOthers⟩ := @run_only m d s.platform around.env req hForeign hFresh hReq
    rw [hRun]
    exact ⟨rfl, hOthers⟩
  unfold Server.handle
  cases hCaller : c.identity with
  | none => exact ⟨rfl, rfl⟩
  | some identity =>
    have hOf := hIdentity identity hCaller
    cases c.rpc with
    | createEntry req =>
      simp only [Server.createEntry]
      cases parseBRL req.amount with
      -- an amount that is refused reaches no database
      | error e => exact ⟨rfl, rfl⟩
      | ok money =>
        refine hRun _ ?_
        exact hOf.lower
    | createReversal entryID =>
      simp only [Server.createReversal, guarded_only hOf]
      cases Server.guarded around identity d entryID with
      | error status => exact ⟨rfl, rfl⟩
      | ok u =>
        refine hRun _ ?_
        exact hOf.lower
    | getEntry entryID => exact ⟨by simp only [getEntry_only hForeign hOf], rfl⟩
    | listEntries req => exact ⟨by simp only [listEntries_only hForeign hOf], rfl⟩

/-- Any sequence of rpcs of the merchant. The other merchants' rows stay as they
are, so that what is new to them at the start is new to the end. -/
theorem serve_only {calls : List (Surroundings × Call)} (hForeign : Foreign m (d.others m))
    (hFresh : ∀ c ∈ calls, c.1.env.Fresh (d.others m))
    (hIdentity : ∀ c ∈ calls, ∀ identity, c.2.identity = some identity → IdentityOf m identity) :
    s.serve calls (d.only m) = ((s.serve calls d).1, (s.serve calls d).2.only m) ∧
      (s.serve calls d).2.others m = d.others m := by
  induction calls generalizing d with
  | nil => exact ⟨rfl, rfl⟩
  | cons call rest ih =>
    obtain ⟨around, c⟩ := call
    obtain ⟨hHandle, hOthers⟩ := handle_only (s := s) hForeign
      (hFresh (around, c) List.mem_cons_self) (hIdentity (around, c) List.mem_cons_self)
    have hRest := @ih (s.handle around c d).2
    rw [hOthers] at hRest
    obtain ⟨hServe, hOthers'⟩ := hRest hForeign
      (fun c hc => hFresh c (List.mem_cons_of_mem _ hc))
      fun c hc => hIdentity c (List.mem_cons_of_mem _ hc)
    refine ⟨?_, hOthers'⟩
    simp only [Server.serve, hHandle, hServe]

/-- The handlers that name an entry answer with the refusal of the guard. -/
theorem handle_refused {c : Call} {entryID : Text} {status : Status}
    (hCaller : c.identity = some identity)
    (hRefused : Server.guarded around identity d entryID = .error status) :
    s.handle around { c with rpc := .getEntry entryID } d = (.error status, d) ∧
      s.handle around { c with rpc := .createReversal entryID } d = (.error status, d) := by
  constructor
  · simp only [Server.handle, hCaller, Server.getEntry, hRefused]
  · simp only [Server.handle, hCaller, Server.createReversal, hRefused]

end Rpcs

/-! ## Two ledgers -/

/-- The requests of a merchant do not tell apart two ledgers that agree on its
rows: they get the same replies, make the same changes to the merchant's rows
and change no others. An entry of another merchant is refused as one that does
not exist. -/
theorem merchants_do_not_interfere (s : Server) (m : UUID) (d₁ d₂ : Db)
    (hKeys₁ : d₁.ForeignKeys) (hKeys₂ : d₂.ForeignKeys) (hAgree : d₁.only m = d₂.only m)
    (calls : List (Surroundings × Call))
    (hIdentity : ∀ c ∈ calls, ∃ identity, c.2.identity = some identity ∧ IdentityOf m identity)
    (hFresh : ∀ c ∈ calls, c.1.env.Fresh (d₁.others m) ∧ c.1.env.Fresh (d₂.others m)) :
    (s.serve calls d₁).1 = (s.serve calls d₂).1 ∧
    (s.serve calls d₁).2.only m = (s.serve calls d₂).2.only m ∧
    (s.serve calls d₁).2.others m = d₁.others m ∧
    (s.serve calls d₂).2.others m = d₂.others m ∧
    ∀ (around : Surroundings) (c : Call) (foreign absent : ID),
      (∃ identity, c.identity = some identity ∧ IdentityOf m identity) →
      (∃ e ∈ d₁.entries, e.id = foreign.uuid ∧ e.merchantID ≠ m) →
      (∀ e ∈ d₁.entries, e.id ≠ absent.uuid) →
      s.handle around { c with rpc := .getEntry foreign.text } d₁ =
        s.handle around { c with rpc := .getEntry absent.text } d₁ ∧
      s.handle around { c with rpc := .createReversal foreign.text } d₁ =
        s.handle around { c with rpc := .createReversal absent.text } d₁ := by
  have hOf : ∀ c ∈ calls, ∀ identity, c.2.identity = some identity → IdentityOf m identity := by
    intro c hc identity hCaller
    obtain ⟨caller, hEq, hCallerOf⟩ := hIdentity c hc
    rw [hEq, Option.some.injEq] at hCaller
    exact hCaller ▸ hCallerOf
  obtain ⟨hServe₁, hOthers₁⟩ := @serve_only m d₁ s calls (foreign_others hKeys₁ m)
    (fun c hc => (hFresh c hc).1) hOf
  obtain ⟨hServe₂, hOthers₂⟩ := @serve_only m d₂ s calls (foreign_others hKeys₂ m)
    (fun c hc => (hFresh c hc).2) hOf
  -- both runs are the run on the merchant's own rows
  rw [hAgree, hServe₂, Prod.mk.injEq] at hServe₁
  refine ⟨hServe₁.1.symm, hServe₁.2.symm, hOthers₁, hOthers₂, ?_⟩
  rintro around c foreign absent ⟨identity, hCaller, hCallerOf⟩ ⟨e, he, hId, hMerchant⟩ hAbsent
  have hForeign := @handle_refused d₁ s around identity c _ _ hCaller
    (guarded_foreign hCallerOf (parseID_ok.mpr rfl) he hId hMerchant)
  have hNone := @handle_refused d₁ s around identity c _ _ hCaller
    (guarded_absent (parseID_ok.mpr rfl) hAbsent)
  exact ⟨hForeign.1.trans hNone.1.symm, hForeign.2.trans hNone.2.symm⟩

/-! ### A sample -/

def shop : UUID := ⟨"0b2d5c9e-8f1a-4d3b-9c6e-7a8b9c0d1e2f".toList, by decide, by decide⟩

def neighbour : UUID := ⟨"1c3e6daf-902b-4e4c-8d7f-8b9cad1e2f30".toList, by decide, by decide⟩

def shopSale : UUID := ⟨"019b76da-a800-7101-8101-010101010101".toList, by decide, by decide⟩

def neighbourSale : UUID := ⟨"019b76da-a800-7202-8202-020202020202".toList, by decide, by decide⟩

/-- The first sale of a merchant. -/
def firstSale (merchantID id : UUID) : EntryRow where
  id := id
  merchantID := merchantID
  position := 1
  entryType := .credit
  amountMinor := 1500
  currency := currencyBRL
  businessDate := 20454
  description := none
  confirmedAt := newYear.nanos
  originalEntryID := none

/-- The shop alone. -/
def shopLedger : Db :=
  { Db.empty with
    positions := ⟨[⟨shop, 1, newYear.nanos⟩], by decide, by decide⟩
    entries := ⟨[firstSale shop shopSale], by decide, by decide⟩ }

/-- The shop and its neighbour. -/
def sharedLedger : Db :=
  { Db.empty with
    positions := ⟨[⟨neighbour, 1, newYear.nanos⟩, ⟨shop, 1, newYear.nanos⟩], by decide, by decide⟩
    entries :=
      ⟨[firstSale neighbour neighbourSale, firstSale shop shopSale], by decide, by decide⟩ }

def shopServer : Server := ⟨utcPlatform, ⟨List.replicate 32 0, by decide⟩⟩

def shopCall (rpc : Rpc) : Call where
  identity := some ⟨shop.text⟩
  metadata key :=
    if key = "grpcgateway-idempotency-key".toList then ["refund-1".toList]
    else if key = "grpcgateway-traceparent".toList then
      ["00-4bf92f3577b34da6a3ce929d0e0e4736-00f067aa0ba902b7-01".toList]
    else []
  rpc := rpc

/-- The shop takes its sale back, asks for the neighbour's, and lists its own. -/
def shopCalls : List (Surroundings × Call) :=
  [(⟨calmEnv newYear 32, none, none, {}⟩, shopCall (.createReversal shopSale.text)),
    (⟨calmEnv newYear 48, none, none, {}⟩, shopCall (.getEntry neighbourSale.text)),
    (⟨calmEnv newYear 64, none, none, {}⟩, shopCall (.listEntries ⟨0, [], [], []⟩))]

/-- The shop's calls beside a neighbour's sale, and without it. -/
theorem merchants_do_not_interfere_shop :
    sharedLedger ≠ shopLedger ∧
    (shopServer.serve shopCalls sharedLedger).1 = (shopServer.serve shopCalls shopLedger).1 ∧
    (shopServer.serve shopCalls sharedLedger).2.others shop = sharedLedger.others shop ∧
    (∃ e ∈ sharedLedger.entries, e.id = neighbourSale.id.uuid ∧ e.merchantID ≠ shop) ∧
    (∀ e ∈ sharedLedger.entries, e.id ≠ shop.id.uuid) ∧
    shopServer.handle ⟨calmEnv newYear 32, none, none, {}⟩
        (shopCall (.getEntry neighbourSale.id.text)) sharedLedger =
      shopServer.handle ⟨calmEnv newYear 32, none, none, {}⟩
        (shopCall (.getEntry shop.id.text)) sharedLedger := by
  have hKeys₁ : sharedLedger.ForeignKeys :=
    ⟨by simp [sharedLedger, firstSale], by simp [sharedLedger, Db.empty]⟩
  have hKeys₂ : shopLedger.ForeignKeys :=
    ⟨by simp [shopLedger, firstSale], by simp [shopLedger, Db.empty]⟩
  have hOf : IdentityOf shop ⟨shop.text⟩ := ⟨shop.id, rfl, uuid_id shop⟩
  have hIdentity : ∀ c ∈ shopCalls, ∃ identity, c.2.identity = some identity ∧
      IdentityOf shop identity := by
    simp only [shopCalls, List.forall_mem_cons]
    exact ⟨⟨_, rfl, hOf⟩, ⟨_, rfl, hOf⟩, ⟨_, rfl, hOf⟩, List.forall_mem_nil _⟩
  -- the identifiers and times the calls draw are not in use by the others
  have hFresh : ∀ c ∈ shopCalls, c.1.env.Fresh (sharedLedger.others shop) ∧
      c.1.env.Fresh (shopLedger.others shop) := by
    simp only [shopCalls, List.forall_mem_cons]
    refine ⟨⟨⟨?_, ?_, ?_⟩, ?_, ?_, ?_⟩, ⟨⟨?_, ?_, ?_⟩, ?_, ?_, ?_⟩, ⟨⟨?_, ?_, ?_⟩, ?_, ?_, ?_⟩,
      List.forall_mem_nil _⟩
    all_goals decide +kernel
  have hForeign : ∃ e ∈ sharedLedger.entries, e.id = neighbourSale.id.uuid ∧ e.merchantID ≠ shop :=
    ⟨firstSale neighbour neighbourSale, List.mem_cons_self, (uuid_id neighbourSale).symm, by decide⟩
  -- the merchant's own identifier is no entry's
  have hAbsent : ∀ e ∈ sharedLedger.entries, e.id ≠ shop.id.uuid := by
    rw [uuid_id]
    show ∀ e ∈ sharedLedger.entries.rows, e.id ≠ shop
    decide +kernel
  obtain ⟨hReplies, -, hOthers, -, hSame⟩ := merchants_do_not_interfere shopServer shop sharedLedger
    shopLedger hKeys₁ hKeys₂ (by decide +kernel) shopCalls hIdentity hFresh
  exact ⟨by decide +kernel, hReplies, hOthers, hForeign, hAbsent,
    (hSame _ (shopCall (.getEntry [])) _ _ ⟨_, rfl, hOf⟩ hForeign hAbsent).1⟩

end Cashflow.Ledger
