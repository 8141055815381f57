import TradingLab.Lib.Machine
import TradingLab.Lib.Keyed
import TradingLab.Lib.Bytes
import TradingLab.Lib.Guards
import TradingLab.Lib.System
/-!
# The Solana program

`lib.rs` of the settlement program: collateral accounts of an exchange, the vault with
the tokens behind them, and batches of transfers between them, each with a receipt.

The keys are any type; what the runtime gives is in `Runtime`: program addresses that
no two seeds share and that have no private key, and the token program. An account that an instruction names
is checked against its Anchor constraints before the body runs.
-/
open LabLib

namespace TradingLab.Solana

abbrev SettlementId := Vector UInt8 16
abbrev Digest := Vector UInt8 32

/-! ## Errors -/

inductive SettlementError where
  | ZeroAmount
  | AccountFrozen
  | InsufficientCollateral
  | AmountOverflow
  | EmptyBatch
  | BatchTooLarge
  | SelfSettlement
  | MissingAccount
  | WrongExchange
  | DuplicateAccount
  | AccountNotWritable
  | InvalidCollateralAddress
  | ManifestMismatch
deriving DecidableEq

inductive ProgramError where
  | settlement (error : SettlementError)
  /-- A constraint of an `Accounts` struct does not hold. -/
  | constraint
  /-- The account is of another kind, or not there. -/
  | account
  /-- The token program refuses. -/
  | token
deriving DecidableEq

/-! ## Accounts -/

section Accounts
variable (Key : Type)

structure Exchange where
  authority : Key
  mint : Key
  vault : Key
  bump : UInt8
  vault_bump : UInt8
  total_collateral : UInt64
  settlements : UInt64
deriving DecidableEq

structure Collateral where
  owner : Key
  exchange : Key
  balance : UInt64
  frozen : Bool
  bump : UInt8
deriving DecidableEq

structure Receipt where
  exchange : Key
  settlement_id : SettlementId
  manifest_hash : Digest
  leg_count : UInt16
  applied_slot : UInt64
deriving DecidableEq

/-- What the token program keeps for an account. -/
structure TokenAccount where
  mint : Key
  authority : Key
  amount : UInt64
deriving DecidableEq

inductive Account where
  | exchange (data : Exchange Key)
  | collateral (data : Collateral Key)
  | receipt (data : Receipt Key)
  | token (data : TokenAccount Key)
  | mint
deriving DecidableEq

/-- The seeds of the addresses that the program uses. -/
inductive Seeds where
  | exchange (authority mint : Key)
  | vault (exchange : Key)
  | collateral (exchange owner : Key)
  | receipt (exchange : Key) (settlement_id : SettlementId)
deriving DecidableEq

/-- All accounts, by their keys. -/
abbrev Bank := List (Key × Account Key)

/-- What the program takes from the runtime. -/
structure Runtime where
  /-- The bytes of a key. -/
  as_ref : Key → List UInt8
  hash : List UInt8 → Digest
  create_program_address : Seeds Key → UInt8 → Option Key
  find_program_address : Seeds Key → Key × UInt8
  /-- The key has a private key, so that it can sign a transaction. -/
  on_curve : Key → Bool
  /-- A transfer of the token program from a source to a destination, which the authority signs. -/
  token_transfer : Bank Key → Key → Key → Key → UInt64 → Except ProgramError (Bank Key)
  mint_to : Bank Key → Key → UInt64 → Except ProgramError (Bank Key)
  found : ∀ seeds, create_program_address seeds (find_program_address seeds).2 = some (find_program_address seeds).1
  unique : ∀ {seeds seeds' bump bump' key}, create_program_address seeds bump = some key →
    create_program_address seeds' bump' = some key → seeds = seeds'
  off_curve : ∀ {seeds bump key}, create_program_address seeds bump = some key → on_curve key = false

end Accounts

section Bank
variable {Key : Type} [DecidableEq Key]

namespace Bank

def get (bank : Bank Key) (key : Key) : Option (Account Key) := (bank.find? fun entry => entry.1 = key).map Prod.snd

def set (bank : Bank Key) (key : Key) (account : Account Key) : Bank Key :=
  amend Prod.fst key (fun entry => (entry.1, account)) bank

/-- `Account::try_from` reads the data of an account of its own kind only. -/
def exchange (bank : Bank Key) (key : Key) : Option (Exchange Key) :=
  match bank.get key with
  | some (.exchange data) => some data
  | _ => none

def collateral (bank : Bank Key) (key : Key) : Option (Collateral Key) :=
  match bank.get key with
  | some (.collateral data) => some data
  | _ => none

def token (bank : Bank Key) (key : Key) : Option (TokenAccount Key) :=
  match bank.get key with
  | some (.token data) => some data
  | _ => none

end Bank

/-! ## Instructions -/

section Instructions
variable (Key)

structure InitializeExchange where
  authority : Key
  exchange : Key
  mint : Key
  vault : Key

structure OpenCollateral where
  owner : Key
  exchange : Key
  collateral : Key

/-- `DepositCollateral` and `WithdrawCollateral` have the same accounts and constraints. -/
structure MoveCollateral where
  owner : Key
  exchange : Key
  collateral : Key
  mint : Key
  owner_tokens : Key
  vault : Key

structure FreezeAccount where
  authority : Key
  exchange : Key
  collateral : Key

structure SettleBatch where
  authority : Key
  exchange : Key
  receipt : Key

/-- A remaining account. -/
structure AccountInfo where
  key : Key
  is_writable : Bool

end Instructions

/-- Payer and payee are places among the remaining accounts. -/
structure Leg where
  payer : UInt8
  payee : UInt8
  amount : UInt64

variable (runtime : Runtime Key)

/-- `init` with seeds: the account is at its address, and is not there yet. -/
def init_address (bank : Bank Key) (seeds : Seeds Key) (key : Key) : Except ProgramError UInt8 := do
  let (address, bump) := runtime.find_program_address seeds
  require (key = address ∧ bank.get key = none) .constraint
  return bump

def initialize_exchange (bank : Bank Key) (signers : List Key) (accounts : InitializeExchange Key) :
    Except ProgramError (Bank Key) := do
  require (accounts.authority ∈ signers) .constraint
  let bump ← init_address runtime bank (.exchange accounts.authority accounts.mint) accounts.exchange
  require (bank.get accounts.mint = some .mint) .account
  let vault_bump ← init_address runtime bank (.vault accounts.exchange) accounts.vault
  let exchange : Exchange Key := {
    authority := accounts.authority
    mint := accounts.mint
    vault := accounts.vault
    bump := bump
    vault_bump := vault_bump
    total_collateral := 0
    settlements := 0 }
  let vault : TokenAccount Key := { mint := accounts.mint, authority := accounts.vault, amount := 0 }
  return bank ++ [(accounts.vault, .token vault), (accounts.exchange, .exchange exchange)]

def open_collateral (bank : Bank Key) (signers : List Key) (accounts : OpenCollateral Key) :
    Except ProgramError (Bank Key) := do
  require (accounts.owner ∈ signers) .constraint
  let _ ← ok_or (bank.exchange accounts.exchange) .account
  let bump ← init_address runtime bank (.collateral accounts.exchange accounts.owner) accounts.collateral
  let collateral : Collateral Key := {
    owner := accounts.owner
    exchange := accounts.exchange
    balance := 0
    frozen := false
    bump := bump }
  return bank ++ [(accounts.collateral, .collateral collateral)]

/-- The constraints on the accounts of a deposit or a withdrawal. -/
def move_accounts (bank : Bank Key) (signers : List Key) (accounts : MoveCollateral Key) :
    Except ProgramError (Exchange Key × Collateral Key) := do
  require (accounts.owner ∈ signers) .constraint
  let exchange ← ok_or (bank.exchange accounts.exchange) .account
  require (exchange.vault = accounts.vault ∧ exchange.mint = accounts.mint) .constraint
  let collateral ← ok_or (bank.collateral accounts.collateral) .account
  require (collateral.owner = accounts.owner) .constraint
  require (runtime.create_program_address (.collateral accounts.exchange accounts.owner) collateral.bump =
    some accounts.collateral) .constraint
  require (bank.get accounts.mint = some .mint) .account
  let owner_tokens ← ok_or (bank.token accounts.owner_tokens) .account
  require (owner_tokens.mint = accounts.mint ∧ owner_tokens.authority = accounts.owner) .constraint
  let _ ← ok_or (bank.token accounts.vault) .account
  require (runtime.create_program_address (.vault accounts.exchange) exchange.vault_bump = some accounts.vault) .constraint
  return (exchange, collateral)

def deposit_collateral (bank : Bank Key) (signers : List Key) (accounts : MoveCollateral Key) (amount : UInt64) :
    Except ProgramError (Bank Key) := do
  let (exchange, collateral) ← move_accounts runtime bank signers accounts
  require (0 < amount) (.settlement .ZeroAmount)
  require (collateral.frozen = false) (.settlement .AccountFrozen)
  let bank ← runtime.token_transfer bank accounts.owner_tokens accounts.vault accounts.owner amount
  let balance ← ok_or (checked_add collateral.balance amount) (.settlement .AmountOverflow)
  let total_collateral ← ok_or (checked_add exchange.total_collateral amount) (.settlement .AmountOverflow)
  return (bank.set accounts.exchange (.exchange { exchange with total_collateral := total_collateral })).set
    accounts.collateral (.collateral { collateral with balance := balance })

/-- The vault signs with its seeds. -/
def withdraw_collateral (bank : Bank Key) (signers : List Key) (accounts : MoveCollateral Key) (amount : UInt64) :
    Except ProgramError (Bank Key) := do
  let (exchange, collateral) ← move_accounts runtime bank signers accounts
  require (0 < amount) (.settlement .ZeroAmount)
  require (collateral.frozen = false) (.settlement .AccountFrozen)
  require (amount ≤ collateral.balance) (.settlement .InsufficientCollateral)
  let bank ← runtime.token_transfer bank accounts.vault accounts.owner_tokens accounts.vault amount
  let balance ← ok_or (checked_sub collateral.balance amount) (.settlement .AmountOverflow)
  let total_collateral ← ok_or (checked_sub exchange.total_collateral amount) (.settlement .AmountOverflow)
  return (bank.set accounts.exchange (.exchange { exchange with total_collateral := total_collateral })).set
    accounts.collateral (.collateral { collateral with balance := balance })

def freeze_account (bank : Bank Key) (signers : List Key) (accounts : FreezeAccount Key) (frozen : Bool) :
    Except ProgramError (Bank Key) := do
  require (accounts.authority ∈ signers) .constraint
  let exchange ← ok_or (bank.exchange accounts.exchange) .account
  require (exchange.authority = accounts.authority) .constraint
  let collateral ← ok_or (bank.collateral accounts.collateral) .account
  require (runtime.create_program_address (.collateral accounts.exchange collateral.owner) collateral.bump =
    some accounts.collateral) .constraint
  return bank.set accounts.collateral (.collateral { collateral with frozen := frozen })

/-! ## Batches -/

def MAX_LEGS : Nat := 32

/-- `RLTL-SETTLE-V1` and two spaces. -/
def MANIFEST_DOMAIN : List UInt8 :=
  [0x52, 0x4c, 0x54, 0x4c, 0x2d, 0x53, 0x45, 0x54, 0x54, 0x4c, 0x45, 0x2d, 0x56, 0x31, 0x20, 0x20]

/-- What `manifest_hash` hashes. -/
def manifest_bytes (as_ref : Key → List UInt8) (settlement_id : SettlementId) (exchange : Key)
    (legs : List (Key × Key × UInt64)) : List UInt8 :=
  [MANIFEST_DOMAIN, settlement_id.toList, as_ref exchange, to_le_bytes (UInt16.ofNat legs.length),
    legs.flatMap fun leg => [as_ref leg.1, as_ref leg.2.1, to_le_bytes leg.2.2].flatten].flatten

def manifest_hash (settlement_id : SettlementId) (exchange : Key) (legs : List (Key × Key × UInt64)) : Digest :=
  runtime.hash (manifest_bytes runtime.as_ref settlement_id exchange legs)

/-- The first loop: every remaining account is writable, not there before, a collateral
account of the exchange, and at its address. -/
def check_accounts (bank : Bank Key) (exchange_key : Key) (seen : List Key) : List (AccountInfo Key) → Except ProgramError Unit
  | [] => return ()
  | info :: rest => do
    require (info.is_writable = true) (.settlement .AccountNotWritable)
    require (info.key ∉ seen) (.settlement .DuplicateAccount)
    let collateral ← ok_or (bank.collateral info.key) .account
    require (collateral.exchange = exchange_key) (.settlement .WrongExchange)
    let expected ← ok_or (runtime.create_program_address (.collateral exchange_key collateral.owner) collateral.bump)
      (.settlement .InvalidCollateralAddress)
    require (info.key = expected) (.settlement .InvalidCollateralAddress)
    check_accounts bank exchange_key (seen ++ [info.key]) rest

omit runtime in
def leg_account (accounts : List (AccountInfo Key)) (place : UInt8) : Except ProgramError Key :=
  ok_or (accounts[place.toNat]?.map AccountInfo.key) (.settlement .MissingAccount)

/-- The second loop: the keys that a leg moves value between. -/
def resolve_leg (accounts : List (AccountInfo Key)) (leg : Leg) : Except ProgramError (Key × Key × UInt64) := do
  require (0 < leg.amount) (.settlement .ZeroAmount)
  require (leg.payer ≠ leg.payee) (.settlement .SelfSettlement)
  let payer ← leg_account accounts leg.payer
  let payee ← leg_account accounts leg.payee
  require (payer ≠ payee) (.settlement .SelfSettlement)
  return (payer, payee, leg.amount)

/-- The third loop: both accounts are read again, and written back. -/
def apply_leg (accounts : List (AccountInfo Key)) (bank : Bank Key) (leg : Leg) : Except ProgramError (Bank Key) := do
  let payer_key ← leg_account accounts leg.payer
  let payee_key ← leg_account accounts leg.payee
  let payer ← ok_or (bank.collateral payer_key) .account
  let payee ← ok_or (bank.collateral payee_key) .account
  require (payer.frozen = false ∧ payee.frozen = false) (.settlement .AccountFrozen)
  require (leg.amount ≤ payer.balance) (.settlement .InsufficientCollateral)
  let paid ← ok_or (checked_sub payer.balance leg.amount) (.settlement .AmountOverflow)
  let received ← ok_or (checked_add payee.balance leg.amount) (.settlement .AmountOverflow)
  return (bank.set payer_key (.collateral { payer with balance := paid })).set
    payee_key (.collateral { payee with balance := received })

def settle_batch (bank : Bank Key) (signers : List Key) (slot : UInt64) (context : SettleBatch Key)
    (accounts : List (AccountInfo Key)) (settlement_id : SettlementId) (supplied_hash : Digest) (legs : List Leg) :
    Except ProgramError (Bank Key) := do
  require (context.authority ∈ signers) .constraint
  let exchange ← ok_or (bank.exchange context.exchange) .account
  require (exchange.authority = context.authority) .constraint
  let _ ← init_address runtime bank (.receipt context.exchange settlement_id) context.receipt
  require (legs ≠ []) (.settlement .EmptyBatch)
  require (legs.length ≤ MAX_LEGS) (.settlement .BatchTooLarge)
  check_accounts runtime bank context.exchange [] accounts
  let resolved ← legs.mapM (resolve_leg accounts)
  require (manifest_hash runtime settlement_id context.exchange resolved = supplied_hash) (.settlement .ManifestMismatch)
  let bank ← legs.foldlM (apply_leg accounts) bank
  let settlements ← ok_or (checked_add exchange.settlements 1) (.settlement .AmountOverflow)
  let receipt : Receipt Key := {
    exchange := context.exchange
    settlement_id := settlement_id
    manifest_hash := supplied_hash
    leg_count := .ofNat legs.length
    applied_slot := slot }
  return bank.set context.exchange (.exchange { exchange with settlements := settlements }) ++
    [(context.receipt, .receipt receipt)]

/-! ## Transactions -/

inductive Instruction (Key : Type) where
  | initialize_exchange (accounts : InitializeExchange Key)
  | open_collateral (accounts : OpenCollateral Key)
  | deposit_collateral (accounts : MoveCollateral Key) (amount : UInt64)
  | withdraw_collateral (accounts : MoveCollateral Key) (amount : UInt64)
  | freeze_account (accounts : FreezeAccount Key) (frozen : Bool)
  | settle_batch (context : SettleBatch Key) (accounts : List (AccountInfo Key)) (settlement_id : SettlementId)
      (manifest_hash : Digest) (legs : List Leg)
  /-- An owner moves tokens, past the program. -/
  | transfer (source destination authority : Key) (amount : UInt64)
  | mint_to (destination : Key) (amount : UInt64)

structure Transaction (Key : Type) where
  signers : List Key
  slot : UInt64
  instruction : Instruction Key

def execute (bank : Bank Key) (signers : List Key) (slot : UInt64) : Instruction Key → Except ProgramError (Bank Key)
  | .initialize_exchange accounts => initialize_exchange runtime bank signers accounts
  | .open_collateral accounts => open_collateral runtime bank signers accounts
  | .deposit_collateral accounts amount => deposit_collateral runtime bank signers accounts amount
  | .withdraw_collateral accounts amount => withdraw_collateral runtime bank signers accounts amount
  | .freeze_account accounts frozen => freeze_account runtime bank signers accounts frozen
  | .settle_batch context accounts settlement_id manifest_hash legs =>
    settle_batch runtime bank signers slot context accounts settlement_id manifest_hash legs
  | .transfer source destination authority amount => do
    require (authority ∈ signers) .token
    runtime.token_transfer bank source destination authority amount
  | .mint_to destination amount => runtime.mint_to bank destination amount

/-- The accounts, and the batches that were settled so far. -/
structure Chain (Key : Type) where
  bank : Bank Key
  settled : List (Key × SettlementId)

/-- The batch that an instruction settles. -/
def Instruction.batch : Instruction Key → List (Key × SettlementId)
  | .settle_batch context _ settlement_id _ _ => [(context.exchange, settlement_id)]
  | _ => []

/-- Signatures are checked first. A transaction that fails changes nothing. -/
def Chain.step (chain : Chain Key) (transaction : Transaction Key) : Option (Chain Key) :=
  if transaction.signers.all runtime.on_curve then
    match execute runtime chain.bank transaction.signers transaction.slot transaction.instruction with
    | .ok bank => some { bank := bank, settled := chain.settled ++ transaction.instruction.batch }
    | .error _ => some chain
  else none

end Bank

end TradingLab.Solana
