import TradingLab.Lib.Bytes
import TradingLab.Dispatcher
/-!
# The settlement venues

What `SimulatedVenue` and `SolanaVenue` answer to `submit` and `lookup`, and which of the
answers make a settlement of the dispatcher fail.

What a venue answers depends on its own state and, on Solana, on what the connection
does: whether it throws, and with which text. Such a text is one of the venue's fields.
-/
open LabLib

namespace TradingLab

/-- What a venue answers as things stand. -/
structure Adapter where
  submit : Manifest → String → SubmitOutcome
  lookup : String → String → Manifest → SubmitOutcome

/-! ## The simulated venue -/

structure SimulatedFaults where
  unavailable : Bool := false
  timeoutAfterApply : Bool := false
  reject : Bool := false

/-- The receipt of a batch, and the manifest hash it was applied with. -/
structure AppliedBatch where
  receipt : String
  manifestHash : String

structure SimulatedVenue where
  faults : SimulatedFaults
  applied : List (String × AppliedBatch)

namespace SimulatedVenue

def get (venue : SimulatedVenue) (settlementId : String) : Option AppliedBatch :=
  (venue.applied.find? fun entry => entry.1 = settlementId).map Prod.snd

def submit (sha256 : String → String) (venue : SimulatedVenue) (manifest : Manifest) (manifestHash : String) :
    SimulatedVenue × SubmitOutcome :=
  if venue.faults.unavailable then (venue, .unknown "venue unavailable")
  else if venue.faults.reject then (venue, .rejected "venue rejected the batch")
  else
    match venue.get manifest.settlementId with
    | some existing =>
      if existing.manifestHash ≠ manifestHash then
        (venue, .rejected "settlement id already applied with another manifest")
      else (venue, .alreadyApplied existing.receipt)
    | none =>
      let receipt := String.ofList ((sha256 (manifest.settlementId ++ "|" ++ manifestHash)).toList.take 32)
      let venue := { venue with applied := venue.applied ++ [(manifest.settlementId, ⟨receipt, manifestHash⟩)] }
      -- The ledger applied it but the caller never learned the result.
      if venue.faults.timeoutAfterApply then (venue, .unknown "no response after submission")
      else (venue, .confirmed receipt)

def lookup (venue : SimulatedVenue) (settlementId manifestHash : String) : SubmitOutcome :=
  if venue.faults.unavailable then .unknown "venue unavailable"
  else
    match venue.get settlementId with
    | none => .notFound
    | some existing =>
      if existing.manifestHash ≠ manifestHash then .rejected "receipt manifest does not match the local manifest"
      else .alreadyApplied existing.receipt

def adapter (sha256 : String → String) (venue : SimulatedVenue) : Adapter where
  submit manifest manifestHash := (venue.submit sha256 manifest manifestHash).2
  lookup settlementId manifestHash _ := venue.lookup settlementId manifestHash

end SimulatedVenue

/-! ## Legs on Solana -/

abbrev PublicKey := Vector UInt8 32

/-- Payer and payee are places among the collateral addresses. -/
structure NettedLeg where
  payer : Nat
  payee : Nat
  amount : Int
deriving DecidableEq

/-- The variables of the loop of `buildLegs`. -/
structure LegBuilder where
  indexes : List (AccountId × Nat)
  collateral : List PublicKey
  netted : List NettedLeg

structure SolanaVenue where
  exchange : PublicKey
  owners : List (AccountId × PublicKey)
  /-- The address of an owner's collateral account. -/
  collateralAddress : PublicKey → PublicKey
  /-- The address of the receipt of an identity, as text. -/
  receiptAddress : List UInt8 → String
  /-- The hex digits of a digest. -/
  sha256 : List UInt8 → String
  /-- The data of the receipt accounts, by the identity in their seeds. -/
  accounts : List (List UInt8 × List UInt8)
  /-- What sending a transaction throws, if the program does not get it. -/
  sendError : Option String
  /-- What reading an account throws. -/
  readError : Option String
  /-- What the program throws at a batch without a receipt, if it does not apply it. -/
  refusal : Option String

namespace SolanaVenue

def MAX_LEGS : Nat := 32

/-- The 16 ASCII bytes of the domain tag. -/
def MANIFEST_DOMAIN : List UInt8 :=
  [0x52, 0x4c, 0x54, 0x4c, 0x2d, 0x53, 0x45, 0x54, 0x54, 0x4c, 0x45, 0x2d, 0x56, 0x31, 0x20, 0x20]

/-- The bytes that `settlementManifestHash` hashes. -/
def settlementManifestBytes (settlementId : List UInt8) (exchange : PublicKey) (legs : List (PublicKey × PublicKey × Int)) :
    List UInt8 :=
  [MANIFEST_DOMAIN, settlementId, exchange.toList, to_le_bytes (UInt16.ofNat legs.length),
    legs.flatMap fun leg => [leg.1.toList, leg.2.1.toList, to_le_bytes (UInt64.ofNat leg.2.2.toNat)].flatten].flatten

def hexValue (c : Char) : Option Nat :=
  let n := c.toNat
  if 48 ≤ n ∧ n ≤ 57 then some (n - 48)
  else if 97 ≤ n ∧ n ≤ 102 then some (n - 87)
  else if 65 ≤ n ∧ n ≤ 70 then some (n - 55)
  else none

/-- `Buffer.from(text, 'hex')` stops at the first pair that is no byte. -/
def fromHex : List Char → List UInt8
  | a :: b :: rest =>
    match hexValue a, hexValue b with
    | some high, some low => UInt8.ofNat (16 * high + low) :: fromHex rest
    | _, _ => []
  | _ => []

def toHex (bytes : List UInt8) : String :=
  String.ofList (bytes.flatMap fun byte => [hexDigit (byte.toNat / 16), hexDigit (byte.toNat % 16)])

def settlementIdBytes (settlementId : String) : List UInt8 :=
  let hex := match settlementId.toList with
    | 's' :: 't' :: 'l' :: '_' :: rest => rest
    | chars => chars
  fromHex (hex.take 32)

/-- The place of an account's collateral address, which is added when the account is new. -/
def indexOf (venue : SolanaVenue) (build : LegBuilder) (account : AccountId) : Except String (Nat × LegBuilder) :=
  match build.indexes.find? fun entry => entry.1 = account with
  | some entry => .ok (entry.2, build)
  | none =>
    match venue.owners.find? fun entry => entry.1 = account with
    | none => .error ("no Solana owner configured for account " ++ toString account)
    | some entry =>
      let index := build.collateral.length
      .ok (index, { build with
        collateral := build.collateral ++ [venue.collateralAddress entry.2]
        indexes := build.indexes ++ [(account, index)] })

/-- Legs of the same payer and payee become one. -/
def addLeg (netted : List NettedLeg) (payer payee : Nat) (amount : Int) : List NettedLeg :=
  if netted.any fun leg => leg.payer = payer ∧ leg.payee = payee then
    netted.map fun leg => if leg.payer = payer ∧ leg.payee = payee then { leg with amount := leg.amount + amount } else leg
  else netted ++ [⟨payer, payee, amount⟩]

def addTrade (venue : SolanaVenue) (build : LegBuilder) (trade : ManifestTrade) : Except String LegBuilder := do
  let amount := val trade.priceTicks * val trade.quantityLots
  if amount ≤ 0 then throw ("trade " ++ toString trade.tradeId ++ " has a non-positive notional")
  let buyer := if trade.aggressor = .Buy then trade.takerAccount else trade.makerAccount
  let seller := if trade.aggressor = .Buy then trade.makerAccount else trade.takerAccount
  if buyer = seller then return build
  let (payer, build) ← venue.indexOf build buyer
  let (payee, build) ← venue.indexOf build seller
  return { build with netted := addLeg build.netted payer payee amount }

/-- Nets the batch down to one leg per debtor/creditor pair. -/
def buildLegs (venue : SolanaVenue) (manifest : Manifest) : Except String (List NettedLeg × List PublicKey) := do
  let build ← manifest.trades.foldlM venue.addTrade ⟨[], [], []⟩
  let legs := build.netted
  if legs = [] then throw "batch nets to no transfers"
  if MAX_LEGS < legs.length then
    throw ("batch needs " ++ toString legs.length ++ " legs, the program allows " ++ toString MAX_LEGS)
  if legs.any fun leg => 18446744073709551615 < leg.amount then throw "leg amount exceeds the on-chain u64 range"
  return (legs, build.collateral)

def hashLegs (venue : SolanaVenue) (settlementId : List UInt8) (legs : List NettedLeg) (collateral : List PublicKey) : String :=
  let key (place : Nat) := collateral.getD place venue.exchange
  venue.sha256 (settlementManifestBytes settlementId venue.exchange
    (legs.map fun leg => (key leg.payer, key leg.payee, leg.amount)))

/-- The hash that the receipt of a manifest has to have. -/
def legsHash (venue : SolanaVenue) (manifest : Manifest) : Except String String := do
  let (legs, collateral) ← venue.buildLegs manifest
  return venue.hashLegs (settlementIdBytes manifest.settlementId) legs collateral

/-! ## The Solana venue -/

/-- Somewhere the pattern, and then what `follows` accepts. -/
def occurs (pattern : List Char) (follows : List Char → Bool) : List Char → Bool
  | [] => pattern.isEmpty && follows []
  | c :: text => (pattern.isPrefixOf (c :: text) && follows ((c :: text).drop pattern.length)) || occurs pattern follows text

def mentions (text pattern : String) : Bool := occurs pattern.toList (fun _ => true) text.toList

/-- A word ends here. -/
def wordEnd : List Char → Bool
  | [] => true
  | c :: _ => !(c.isAlphanum || c = '_')

/-- The receipt already exists, so the batch may already be applied. -/
def inUse (text : String) : Bool :=
  mentions text "already in use" || occurs "custom program error: 0x0".toList wordEnd text.toList

def transient (text : String) : Bool :=
  ["blockhash not found", "block height exceeded", "timed out", "fetch failed", "econnrefused", "503", "429"].any
    (mentions text.toLower)

def refused (text : String) : Bool :=
  ["insufficient collateral", "frozen", "another exchange", "greater than zero", "has one constraint",
    "manifest hash does not match"].any (mentions text.toLower)

def account (venue : SolanaVenue) (settlementId : String) : Option (List UInt8) :=
  (venue.accounts.find? fun entry => entry.1 = settlementIdBytes settlementId).map Prod.snd

/-- 8 byte discriminator, 32 byte exchange, 16 byte id, then the 32 byte hash. -/
def storedHash (data : List UInt8) : String := toHex ((data.drop 56).take 32)

/-- `lookup`, from the expected hash on. -/
def reconcile (venue : SolanaVenue) (settlementId expected : String) : SubmitOutcome :=
  match venue.readError with
  | some text => .unknown text
  | none =>
    match venue.account settlementId with
    | none => .notFound
    | some data =>
      if storedHash data ≠ expected then .rejected "on-chain receipt has a different manifest hash"
      else .alreadyApplied (venue.receiptAddress (settlementIdBytes settlementId))

def lookup (venue : SolanaVenue) (settlementId : String) (manifest : Manifest) : SubmitOutcome :=
  match venue.legsHash manifest with
  | .error text => .rejected text
  | .ok expected => venue.reconcile settlementId expected

def classify (venue : SolanaVenue) (text settlementId manifestHash : String) : SubmitOutcome :=
  if inUse text then venue.reconcile settlementId manifestHash
  else if transient text then .unknown text
  else if refused text then .rejected text
  -- An unclassified failure is not a decision.
  else .unknown text

/-- What the transaction throws. The program cannot create a receipt that exists. -/
def thrown (venue : SolanaVenue) (settlementId : String) : Option String :=
  venue.sendError.or (if (venue.account settlementId).isSome then some "custom program error: 0x0" else venue.refusal)

def submit (venue : SolanaVenue) (manifest : Manifest) : SubmitOutcome :=
  match venue.legsHash manifest with
  | .error text => .rejected text
  | .ok legsHash =>
    match venue.thrown manifest.settlementId with
    | none => .confirmed (venue.receiptAddress (settlementIdBytes manifest.settlementId))
    | some text => venue.classify text manifest.settlementId legsHash

def adapter (venue : SolanaVenue) : Adapter where
  submit manifest _ := venue.submit manifest
  lookup settlementId _ manifest := venue.lookup settlementId manifest

end SolanaVenue

/-- Solana without owners for the accounts of the trades, and with one receipt. -/
def ownerlessSolana : SolanaVenue where
  exchange := .replicate 32 0
  owners := []
  collateralAddress owner := owner
  receiptAddress _ := "r1"
  sha256 _ := "00"
  accounts := [(SolanaVenue.settlementIdBytes "stl_sim|1|1|1", [])]
  sendError := none
  readError := none
  refusal := none

/-! ## One settlement of a tick -/

namespace Office

/-- The tick's calls for one settlement, with what the venue answers to them. -/
def answered (s : Office) (adapter : Adapter) (nowMs : Nat) : Office :=
  match s.tick with
  | .lookup row manifest left =>
    match adapter.lookup row.settlement_id row.manifest_hash manifest with
    | .notFound =>
      let sent := s.submit row manifest left
      if sent.tick = .submit row manifest left then sent.record row left nowMs (adapter.submit manifest row.manifest_hash)
      else sent
    | outcome => s.record row left nowMs outcome
  | .submit row manifest left => s.record row left nowMs (adapter.submit manifest row.manifest_hash)
  | _ => s

end Office

section Driving
variable {sha256 : String → String} {s : Office} {row : SettlementRow} {left : List SettlementRow} {nowMs : Nat}
  {id : String} {current : SettlementStatus}

/-- Neither end has been reached. -/
def SettlementStatus.undecided (status : SettlementStatus) : Bool := status ≠ .confirmed ∧ status ≠ .failed

def SubmitOutcome.isRejected : SubmitOutcome → Bool
  | .rejected _ => true
  | _ => false

/-- The first question to the venue about a settlement. -/
def Adapter.first (adapter : Adapter) (row : SettlementRow) (manifest : Manifest) : SubmitOutcome :=
  if row.status = .unknown ∨ row.status = .submitted then
    adapter.lookup row.settlement_id row.manifest_hash manifest
  else adapter.submit manifest row.manifest_hash

end Driving

end TradingLab
