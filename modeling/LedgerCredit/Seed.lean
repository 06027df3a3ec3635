import LedgerCredit.Effects
import LedgerCredit.Reads

/-!
# The seed

`seedBaseData` is what the seed leaves in an empty database: a checking and a
savings account with their ledger accounts and balances, and three system ledger
accounts.  The identifiers that the seed does not fix are its arguments.
`seedBaseData_seeded` shows that it sets up the accounts as the theorems ask.

`testEnvironment` is the configuration of the integration tests.  `advances`
builds the schedules of the concrete runs in the next modules.
-/

namespace LedgerCredit

open Txn

/-! ## Accounts as they are set up -/

/-- The accounts as they are set up: upper-case currencies, customer ledger accounts in the
currency of their account, system ledger accounts of no account. -/
structure Store.Seeded (env : Env) (s : Store) : Prop where
  upper : ∀ a ∈ s.accounts.rows, env.toUpperCase a.currency = a.currency
  linked : ∀ l ∈ s.ledgerAccounts.rows, ∀ id, l.accountId = some id →
    ∃ a ∈ s.accounts.rows, a.id = id ∧ a.currency = l.currency
  unlinked : ∀ l ∈ s.ledgerAccounts.rows, l.category ≠ .customer → l.accountId = none

theorem Store.Seeded.of_extends {env : Env} {s s' : Store} (h : s.Extends s') (hs : s.Seeded env) :
    s'.Seeded env where
  upper := h.accounts ▸ hs.upper
  linked := h.accounts ▸ h.ledgerAccounts ▸ hs.linked
  unlinked := h.ledgerAccounts ▸ hs.unlinked

/-- The ledger account of an account is in its currency. -/
theorem Store.Seeded.owns {env : Env} {s : Store} (hs : s.Seeded env) {a : Account} {l : LedgerAccount}
    (h : s.Owns a (some l)) : ∃ l' ∈ s.ledgerAccounts.rows, l'.id = l.id ∧ l'.currency = a.currency := by
  obtain ⟨hl, hlink⟩ := Table.find?_eq_some.mp h.ledgerAccount
  obtain ⟨a', ha', hid, hcurrency⟩ := hs.linked l hl a.id hlink
  obtain rfl := Table.eq_of_pk ha' h.account hid
  exact ⟨l, hl, rfl, hcurrency.symm⟩

/-! ## Demo data -/

namespace demoData

def checkingAccountId : Uuid := "0d76f071-8dbf-4d01-aec5-11d448bcb5b1"

def savingsAccountId : Uuid := "498640a4-7f59-4f48-8def-e86791ce9192"

def cashLedgerAccountId : Uuid := "d1ca53fd-75eb-4b8a-9e6d-a4054631d90d"

def clearingLedgerAccountId : Uuid := "a112f304-e9b0-4f81-a0d2-b90eac97d73d"

def interestRevenueLedgerAccountId : Uuid := "ae6d42ea-2b34-4db6-b7c1-681435e3b197"

end demoData

open demoData

/-- The accounts of the demo customer. -/
def seedAccounts (customerId : Uuid) : Table Account (·.id) fun _ => (none : Option Unit) :=
  (Table.empty.insert ⟨checkingAccountId, customerId, "USD", .active⟩).insert
    ⟨savingsAccountId, customerId, "USD", .active⟩

/-- The ledger accounts of the seed. -/
def seedLedgerAccounts (checkingLedgerId savingsLedgerId : Uuid) :
    Table LedgerAccount (·.id) (·.accountId) :=
  [⟨checkingLedgerId, some checkingAccountId, .customer, "USD", .credit⟩,
    ⟨savingsLedgerId, some savingsAccountId, .customer, "USD", .credit⟩,
    ⟨cashLedgerAccountId, none, .cash, "USD", .debit⟩,
    ⟨clearingLedgerAccountId, none, .clearing, "USD", .debit⟩,
    ⟨interestRevenueLedgerAccountId, none, .interestRevenue, "USD", .credit⟩].foldl
      Table.insert Table.empty

/-- The balances of the seed. -/
def seedBalances : Table BalanceProjection (·.accountId) fun _ => (none : Option Unit) :=
  (Table.empty.insert ⟨checkingAccountId, "USD", 250000, none⟩).insert
    ⟨savingsAccountId, "USD", 1250000, none⟩

/-- `seedBaseData` on an empty database. -/
def seedBaseData (customerId checkingLedgerId savingsLedgerId : Uuid) : Store :=
  .opening (seedAccounts customerId) (seedLedgerAccounts checkingLedgerId savingsLedgerId)
    seedBalances

theorem mem_insert {α ι υ : Type} {pk : α → ι} {uk : α → Option υ} [DecidableEq ι] [DecidableEq υ]
    {t : Table α pk uk} {r a : α} (h : a ∈ (t.insert r).rows) : a ∈ t.rows ∨ a = r := by
  by_cases hfresh : t.Fresh r
  · rw [Table.rows_insert hfresh] at h
    simpa using h
  · simp only [Table.insert, hfresh, dite_false] at h
    exact Or.inl h

theorem mem_foldl_insert {α ι υ : Type} {pk : α → ι} {uk : α → Option υ} [DecidableEq ι]
    [DecidableEq υ] {rows : List α} {t : Table α pk uk} {a : α}
    (h : a ∈ (rows.foldl Table.insert t).rows) : a ∈ t.rows ∨ a ∈ rows := by
  induction rows generalizing t with
  | nil => exact Or.inl h
  | cons r rows ih =>
      rcases ih h with h | h
      · rcases mem_insert h with h | rfl
        · exact Or.inl h
        · exact Or.inr (List.mem_cons_self ..)
      · exact Or.inr (List.mem_cons_of_mem _ h)

/-- The seed sets up the accounts well. -/
theorem seedBaseData_seeded {env : Env} (hupper : env.toUpperCase "USD" = "USD")
    (customerId checkingLedgerId savingsLedgerId : Uuid) :
    (seedBaseData customerId checkingLedgerId savingsLedgerId).Seeded env where
  upper := by
    intro a ha
    rcases mem_insert ha with ha | rfl
    · rcases mem_insert ha with ha | rfl
      · simp at ha
      · exact hupper
    · exact hupper
  linked := by
    have hne : checkingAccountId ≠ savingsAccountId := by decide
    have hrows : (seedAccounts customerId).rows =
        [⟨checkingAccountId, customerId, "USD", .active⟩,
          ⟨savingsAccountId, customerId, "USD", .active⟩] := by
      have hchecking : (Table.empty : Table Account (·.id) fun _ => (none : Option Unit)).Fresh
          ⟨checkingAccountId, customerId, "USD", .active⟩ := by simp [Table.Fresh]
      rw [seedAccounts, Table.rows_insert, Table.rows_insert hchecking]
      · simp
      · simp [Table.Fresh, Table.rows_insert hchecking, hne.symm]
    intro l hl id hid
    simp only [seedBaseData, Store.opening, hrows]
    rcases mem_foldl_insert hl with hl | hl
    · simp at hl
    · simp only [List.mem_cons, List.not_mem_nil, or_false] at hl
      rcases hl with rfl | rfl | rfl | rfl | rfl <;> cases hid <;> simp
  unlinked := by
    intro l hl hcategory
    rcases mem_foldl_insert hl with hl | hl
    · simp at hl
    · simp only [List.mem_cons, List.not_mem_nil, or_false] at hl
      rcases hl with rfl | rfl | rfl | rfl | rfl <;> simp at hcategory ⊢

/-- The seed leaves no journal behind, so its foreign keys hold. -/
theorem seedBaseData_foreignKeys (customerId checkingLedgerId savingsLedgerId : Uuid) :
    (seedBaseData customerId checkingLedgerId savingsLedgerId).ForeignKeys where
  posting := by simp [seedBaseData, Store.opening]
  transfer := by simp [seedBaseData, Store.opening]
  line := by simp [seedBaseData, Store.opening]

/-! ## The test environment -/

/-- A text of a request, which stands for the SHA-256 of its JSON. -/
def requestText (request : CreateTransferRequest) : String :=
  let amount := match request.amount.minorUnits with
    | some q => toString q.num ++ "/" ++ toString q.den
    | none => "null"
  let destination := match request.destination with
    | .internalAccount accountId => accountId
    | .externalBank provider bankCode accountNumber accountName =>
        provider.getD "" ++ "/" ++ bankCode ++ "/" ++ accountNumber ++ "/" ++ accountName
  request.sourceAccountId ++ "/" ++ destination ++ "/" ++ request.amount.currency ++ "/" ++
    amount ++ "/" ++ request.purpose.getD ""

/-- The configuration of the integration tests. -/
def testEnvironment : Env where
  nodeEnv := .test
  supportedCurrencies := ["USD"]
  externalRailDefaultProvider := "simulator"
  batchShardSize := 500
  batchWorkerConcurrency := some 25
  interestRateBps := 250
  toUpperCase := fun s => String.ofList (s.toList.map Char.toUpper)
  hashRequestPayload := requestText
  databaseMessage := fun _ => "Invalid invocation."

/-! ## Demo runs -/

/-- The seed with its other identifiers fixed. -/
def demoStore : Store := seedBaseData "customer" "ledger-checking" "ledger-savings"

/-- A transfer from the checking account. -/
def demoTransfer (destination : Destination) (minorUnits : Int) : CreateTransferRequest :=
  ⟨checkingAccountId, destination, ⟨"USD", some minorUnits⟩, none⟩

/-- The context of a request by the demo customer. -/
def demoContext (idempotencyKey : String) : RequestContext :=
  ⟨"correlation", some idempotencyKey, some ⟨"customer", .customer⟩⟩

/-- A transfer from the checking account that waits for its rail. -/
def pendingTransfer : TransferRequest where
  id := "transfer"
  transferType := .interbank
  status := .pendingExternal
  sourceAccountId := checkingAccountId
  destinationAccountId := none
  destinationExternalBankCode := some "NATL"
  destinationExternalAccountNumber := some "1099"
  destinationExternalAccountName := some "Jane Doe"
  amountMinor := 500
  currency := "USD"
  idempotencyKey := "k"
  requestHash := "hash"
  correlationId := none
  externalRailProvider := some "simulator"
  externalReference := some "simulator_transfer"
  failureReason := none
  createdAt := 0
  settledAt := none

/-- The seed with the transfer. -/
def pendingStore : Store :=
  { demoStore with transferRequests := demoStore.transferRequests.insert pendingTransfer }

/-- An event of the rail about the pending transfer. -/
def terminalEvent (providerEventId : String) (eventType : ExternalRailEventType) :
    NormalizedExternalRailEvent where
  provider := "simulator"
  providerEventId := providerEventId
  transferRequestId := some "transfer"
  eventType := eventType

/-- A choice with identifiers that start with `tag`. -/
def choiceOf (tag : String) : Choice where
  uuid := fun n => "id-" ++ (tag ++ toString n)
  uuid_ne := fun n => by simp [String.append_eq_empty_iff]
  now := 0
  order := []

/-- Thread `i` makes `n` steps, with new identifiers in each. -/
def advances (i : Nat) (tag : String) (n : Nat) : List (Action Choice Call) :=
  (List.range n).map fun k => .advance i (choiceOf (tag ++ toString k ++ "-"))

end LedgerCredit
