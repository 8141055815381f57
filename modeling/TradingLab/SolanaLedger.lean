import TradingLab.SolanaProgram
/-!
# Collateral on Solana

What the instructions of the program keep: an exchange's total is the sum of its
collateral accounts, and its vault has the tokens for it. Tokens that others move
cannot change that: the vault's only authority is the vault, which has no private key.
-/
open LabLib

namespace TradingLab.Solana

/-! ## Accounts after a write -/

section Writes
variable {Key : Type} [DecidableEq Key] {bank bank' bank'' : Bank Key} {key other exchange_key : Key} {account old : Account Key}

/-- What an account holds of an exchange's collateral. -/
def Account.held (exchange : Key) : Account Key → Int
  | .collateral data => if data.exchange = exchange then val data.balance else 0
  | _ => 0

def Account.tokens : Account Key → Int
  | .token data => val data.amount
  | _ => 0

/-- The account without the amounts and flags that instructions change. -/
def Account.fixed : Account Key → Account Key
  | .exchange data => .exchange { data with total_collateral := 0, settlements := 0 }
  | .collateral data => .collateral { data with balance := 0, frozen := false }
  | .token data => .token { data with amount := 0 }
  | account => account

namespace Bank

def keys (bank : Bank Key) : List Key := bank.map Prod.fst

/-- The sum of the balances of an exchange's collateral accounts. -/
def total (bank : Bank Key) (exchange : Key) : Int := (bank.map fun entry => entry.2.held exchange).sum

/-- The tokens of an account. -/
def tokens (bank : Bank Key) (key : Key) : Int := ((bank.get key).map Account.tokens).getD 0

theorem keys_set : (bank.set key account).keys = bank.keys := map_amend _ fun _ _ _ => rfl

theorem get_set (hget : bank.get key = some old) :
    (bank.set key account).get other = if other = key then some account else bank.get other := by
  rw [get] at hget
  have hfind := @find?_amend (Key × Account Key) Key _ Prod.fst (fun entry => (entry.1, account)) (fun _ => rfl) key other bank
  rw [get, set, hfind]
  split
  · rename_i heq
    obtain ⟨entry, hentry, -⟩ := Option.map_eq_some_iff.1 hget
    rw [heq, hentry]
    rfl
  · rfl

theorem mem_of_get (h : bank.get key = some old) : (key, old) ∈ bank := by
  obtain ⟨entry, hentry, rfl⟩ := Option.map_eq_some_iff.1 h
  have hkey : entry.1 = key := by simpa using List.find?_some hentry
  exact hkey ▸ List.mem_of_find?_eq_some hentry

theorem get_of_mem (hkeys : bank.keys.Nodup) (h : (key, old) ∈ bank) : bank.get key = some old := by
  have hfind : bank.find? (fun entry => entry.1 = key) = some (key, old) := find?_key hkeys h
  rw [get, hfind, Option.map_some]

theorem get_push (hnone : bank.get key = none) :
    (bank ++ [(key, account)]).get other = if other = key then some account else bank.get other := by
  have happend : (bank ++ [(key, account)]).get other = (bank.get other).or (get [(key, account)] other) := by
    rw [get, List.find?_append, Option.map_or]
    rfl
  rw [happend]
  split
  · rename_i heq
    rw [heq, hnone, Option.none_or]
    simp [get]
  · rename_i hne
    simp [get, Ne.symm hne]

omit [DecidableEq Key] in
theorem keys_push : (bank ++ [(key, account)]).keys = bank.keys ++ [key] := List.map_append

theorem notMem_of_get (hnone : bank.get key = none) : key ∉ bank.keys := by
  intro hmem
  obtain ⟨entry, hentry, rfl⟩ := List.mem_map.1 hmem
  have hfind := List.find?_eq_none.1 (Option.map_eq_none_iff.1 hnone) entry hentry
  simp at hfind

theorem total_push : (bank ++ [(key, account)]).total exchange_key = bank.total exchange_key + account.held exchange_key := by
  simp [total]

theorem tokens_push (hnone : bank.get key = none) :
    (bank ++ [(key, account)]).tokens other = if other = key then account.tokens else bank.tokens other := by
  rw [tokens, get_push hnone]
  split <;> rfl

theorem total_set (hkeys : bank.keys.Nodup) (hget : bank.get key = some old) :
    (bank.set key account).total exchange_key =
      bank.total exchange_key - old.held exchange_key + account.held exchange_key :=
  sum_amend hkeys (mem_of_get hget) (fun entry => (entry.1, account)) fun entry => entry.2.held exchange_key

theorem tokens_set (hget : bank.get key = some old) :
    (bank.set key account).tokens other = if other = key then account.tokens else bank.tokens other := by
  rw [tokens, get_set hget]
  split <;> rfl

theorem exchange_eq_some {data : Exchange Key} : bank.exchange key = some data ↔ bank.get key = some (.exchange data) := by
  rw [Bank.exchange]
  split <;> simp_all

theorem collateral_eq_some {data : Collateral Key} :
    bank.collateral key = some data ↔ bank.get key = some (.collateral data) := by
  rw [Bank.collateral]
  split <;> simp_all

theorem token_eq_some {data : TokenAccount Key} : bank.token key = some data ↔ bank.get key = some (.token data) := by
  rw [Bank.token]
  split <;> simp_all

end Bank

/-- Only amounts and flags change. -/
structure Update (bank bank' : Bank Key) : Prop where
  keys : bank'.keys = bank.keys
  fixed : ∀ key, (bank'.get key).map Account.fixed = (bank.get key).map Account.fixed

theorem Update.refl (bank : Bank Key) : Update bank bank := ⟨rfl, fun _ => rfl⟩

theorem Update.trans (h : Update bank bank') (h' : Update bank' bank'') : Update bank bank'' :=
  ⟨h'.keys.trans h.keys, fun key => (h'.fixed key).trans (h.fixed key)⟩

theorem Update.set (hget : bank.get key = some old) (hfixed : account.fixed = old.fixed) : Update bank (bank.set key account) where
  keys := Bank.keys_set
  fixed other := by
    rw [Bank.get_set hget]
    split
    · rename_i heq
      rw [heq, hget, Option.map_some, Option.map_some, hfixed]
    · rfl

theorem Update.exchange (h : Update bank bank') {data' : Exchange Key} (hget : bank'.get key = some (.exchange data')) :
    ∃ data, bank.get key = some (.exchange data) ∧ data.vault = data'.vault ∧ data.authority = data'.authority := by
  have hfixed := h.fixed key
  rw [hget, Option.map_some, eq_comm, Option.map_eq_some_iff] at hfixed
  obtain ⟨account, hget, hfixed⟩ := hfixed
  cases account with
  | exchange data =>
    simp only [Account.fixed, Account.exchange.injEq, Exchange.mk.injEq] at hfixed
    exact ⟨data, hget, hfixed.2.2.1, hfixed.1⟩
  | _ => cases hfixed

theorem Update.collateral (h : Update bank bank') {data' : Collateral Key} (hget : bank'.get key = some (.collateral data')) :
    ∃ data, bank.get key = some (.collateral data) ∧ data.owner = data'.owner ∧ data.exchange = data'.exchange ∧
      data.bump = data'.bump := by
  have hfixed := h.fixed key
  rw [hget, Option.map_some, eq_comm, Option.map_eq_some_iff] at hfixed
  obtain ⟨account, hget, hfixed⟩ := hfixed
  cases account with
  | collateral data =>
    simp only [Account.fixed, Account.collateral.injEq, Collateral.mk.injEq] at hfixed
    exact ⟨data, hget, hfixed.1, hfixed.2.1, hfixed.2.2.2.2⟩
  | _ => cases hfixed

theorem Update.symm (h : Update bank bank') : Update bank' bank := ⟨h.keys.symm, fun key => (h.fixed key).symm⟩

theorem Update.token (h : Update bank bank') {data : TokenAccount Key} (hget : bank.get key = some (.token data)) :
    ∃ data', bank'.get key = some (.token data') ∧ data'.authority = data.authority := by
  have hfixed := h.symm.fixed key
  rw [hget, Option.map_some, eq_comm, Option.map_eq_some_iff] at hfixed
  obtain ⟨account, hget, hfixed⟩ := hfixed
  cases account with
  | token data' =>
    simp only [Account.fixed, Account.token.injEq, TokenAccount.mk.injEq] at hfixed
    exact ⟨data', hget, hfixed.2.1⟩
  | _ => cases hfixed

end Writes

/-! ## The invariant -/

section Invariant
variable {Key : Type} [DecidableEq Key] {runtime : Runtime Key} {bank bank' : Bank Key}
variable {amount : UInt64} {key : Key}

/-- Every account is at its address: an exchange has its own vault, and a collateral
account belongs to an exchange. -/
structure Placed (runtime : Runtime Key) (bank : Bank Key) : Prop where
  keys : bank.keys.Nodup
  vault : ∀ key data, bank.get key = some (.exchange data) →
    data.vault = (runtime.find_program_address (.vault key)).1 ∧
    ∃ vault, bank.get data.vault = some (.token vault) ∧ vault.authority = data.vault
  collateral : ∀ key data, bank.get key = some (.collateral data) →
    runtime.create_program_address (.collateral data.exchange data.owner) data.bump = some key ∧
    ∃ exchange, bank.get data.exchange = some (.exchange exchange)

/-- The total is what the collateral accounts have, and the vault has it. -/
def Backed (bank : Bank Key) : Prop :=
  ∀ key data, bank.get key = some (.exchange data) →
    val data.total_collateral = bank.total key ∧ val data.total_collateral ≤ bank.tokens data.vault

theorem Placed.update (h : Placed runtime bank) (hu : Update bank bank') : Placed runtime bank' where
  keys := hu.keys ▸ h.keys
  vault key data' hget := by
    obtain ⟨data, hget, hvault, -⟩ := hu.exchange hget
    obtain ⟨haddress, vault, hvaultget, hauthority⟩ := h.vault key data hget
    obtain ⟨vault', hvault', hauthority'⟩ := hu.token hvaultget
    rw [hvault] at haddress hvault' hauthority
    exact ⟨haddress, vault', hvault', hauthority'.trans hauthority⟩
  collateral key data' hget := by
    obtain ⟨data, hget, howner, hexchange, hbump⟩ := hu.collateral hget
    obtain ⟨haddress, exchange, hexchangeget⟩ := h.collateral key data hget
    rw [howner, hexchange, hbump] at haddress
    rw [hexchange] at hexchangeget
    obtain ⟨exchange', hexchange', -⟩ := hu.symm.exchange hexchangeget
    exact ⟨haddress, exchange', hexchange'⟩

/-- The vault of an exchange has no other authority than itself, which cannot sign. -/
theorem Placed.vault_ne (h : Placed runtime bank) {key source : Key} {data : Exchange Key} {tokens : TokenAccount Key}
    (hexchange : bank.get key = some (.exchange data)) (hsource : bank.get source = some (.token tokens))
    (hcurve : runtime.on_curve tokens.authority = true) : data.vault ≠ source := by
  rintro rfl
  obtain ⟨haddress, vault, hvault, hauthority⟩ := h.vault key data hexchange
  rw [hsource] at hvault
  cases hvault
  rw [hauthority, haddress, runtime.off_curve (runtime.found _)] at hcurve
  cases hcurve

/-- Different exchanges have different vaults. -/
theorem Placed.vault_inj (h : Placed runtime bank) {key key' : Key} {data data' : Exchange Key}
    (hexchange : bank.get key = some (.exchange data)) (hexchange' : bank.get key' = some (.exchange data'))
    (heq : data.vault = data'.vault) : key = key' := by
  have hfound := runtime.found (.vault key)
  rw [← (h.vault key data hexchange).1, heq, (h.vault key' data' hexchange').1] at hfound
  have hseeds := runtime.unique hfound (runtime.found (.vault key'))
  exact Seeds.vault.inj hseeds

/-! ## Tokens -/

/-- The accounts' tokens change by these amounts, and nothing else does. -/
structure TokensMove (bank bank' : Bank Key) (change : Key → Int) : Prop where
  update : Update bank bank'
  total : ∀ key, bank'.total key = bank.total key
  others : ∀ key, (∀ data, bank.get key ≠ some (.token data)) → bank'.get key = bank.get key
  tokens : ∀ key, bank'.tokens key = bank.tokens key + change key

theorem Bank.tokens_eq {data : TokenAccount Key} (h : bank.get key = some (.token data)) :
    bank.tokens key = val data.amount := by
  rw [tokens, h]
  rfl

def transferred (source destination : Key) (amount : UInt64) (key : Key) : Int :=
  (if key = destination then val amount else 0) - if key = source then val amount else 0

def minted (destination : Key) (amount : UInt64) (key : Key) : Int := if key = destination then val amount else 0

/-- What is assumed of the token program: only the authority of an account moves tokens out of it, and they are
neither lost nor made on the way. -/
structure Runtime.TokenProgram (runtime : Runtime Key) : Prop where
  transfers : ∀ {bank bank' : Bank Key} {source destination authority : Key} {amount : UInt64}, bank.keys.Nodup →
    runtime.token_transfer bank source destination authority amount = .ok bank' →
    TokensMove bank bank' (transferred source destination amount) ∧
      ∃ tokens, bank.get source = some (.token tokens) ∧ tokens.authority = authority
  mints : ∀ {bank bank' : Bank Key} {destination : Key} {amount : UInt64}, bank.keys.Nodup →
    runtime.mint_to bank destination amount = .ok bank' → TokensMove bank bank' (minted destination amount)

/-! ## Deposits and withdrawals -/

/-- What the constraints say. -/
structure Checked (runtime : Runtime Key) (bank : Bank Key) (signers : List Key) (accounts : MoveCollateral Key)
    (exchange : Exchange Key) (collateral : Collateral Key) : Prop where
  owner : accounts.owner ∈ signers
  reads_exchange : bank.get accounts.exchange = some (.exchange exchange)
  vault : exchange.vault = accounts.vault
  reads_collateral : bank.get accounts.collateral = some (.collateral collateral)
  address : runtime.create_program_address (.collateral accounts.exchange accounts.owner) collateral.bump =
    some accounts.collateral
  tokens : ∃ tokens, bank.get accounts.owner_tokens = some (.token tokens) ∧ tokens.authority = accounts.owner

variable {signers : List Key} {accounts : MoveCollateral Key} {exchange : Exchange Key} {collateral : Collateral Key}

theorem move_accounts_checked (h : move_accounts runtime bank signers accounts = .ok (exchange, collateral)) :
    Checked runtime bank signers accounts exchange collateral := by
  simp only [move_accounts, ok_or_bind, require_bind, Bank.token_eq_some, Bank.exchange_eq_some, Bank.collateral_eq_some] at h
  obtain ⟨howner, e, hexchange, ⟨hvault, -⟩, c, hcollateral, -, haddress, -, tokens, htokens, ⟨-, hauthority⟩, -, -, -, h⟩ := h
  cases h
  exact ⟨howner, hexchange, hvault, hcollateral, haddress, tokens, htokens, hauthority⟩

/-- The collateral account is one of the exchange. -/
theorem Checked.belongs (h : Checked runtime bank signers accounts exchange collateral) (hplaced : Placed runtime bank) :
    collateral.exchange = accounts.exchange := by
  have hseeds := runtime.unique h.address (hplaced.collateral _ _ h.reads_collateral).1
  exact (Seeds.collateral.inj hseeds).1.symm

/-- The balance and the total change by the same amount, and no vault loses more than its
exchange's total does. -/
theorem Checked.moves {moved : Bank Key} {change : Key → Int} {delta : Int} {balance total : UInt64}
    (h : Checked runtime bank signers accounts exchange collateral) (hplaced : Placed runtime bank) (hbacked : Backed bank)
    (hmove : TokensMove bank moved change) (hbalance : val balance = val collateral.balance + delta)
    (htotal : val total = val exchange.total_collateral + delta)
    (hvaults : ∀ key data, bank.get key = some (.exchange data) →
      bank.tokens data.vault + (if key = accounts.exchange then delta else 0) ≤ moved.tokens data.vault) :
    Update bank ((moved.set accounts.exchange (.exchange { exchange with total_collateral := total })).set
        accounts.collateral (.collateral { collateral with balance := balance })) ∧
      Backed ((moved.set accounts.exchange (.exchange { exchange with total_collateral := total })).set
        accounts.collateral (.collateral { collateral with balance := balance })) := by
  have hne : accounts.collateral ≠ accounts.exchange := by
    intro heq
    have hget := h.reads_collateral
    rw [heq, h.reads_exchange] at hget
    cases hget
  have hexchange : moved.get accounts.exchange = some (.exchange exchange) := by
    rw [hmove.others _ (by rw [h.reads_exchange]; nofun), h.reads_exchange]
  have hcollateral : (moved.set accounts.exchange (.exchange { exchange with total_collateral := total })).get
      accounts.collateral = some (.collateral collateral) := by
    rw [Bank.get_set hexchange, if_neg hne, hmove.others _ (by rw [h.reads_collateral]; nofun), h.reads_collateral]
  have hfirst : Update moved (moved.set accounts.exchange (.exchange { exchange with total_collateral := total })) :=
    .set hexchange rfl
  have hkeys : moved.keys.Nodup := hmove.update.keys ▸ hplaced.keys
  refine ⟨(hmove.update.trans hfirst).trans (.set hcollateral rfl), fun key data hget => ?_⟩
  -- the vault of any exchange is neither of the two accounts that are written
  have hvault {key : Key} {data : Exchange Key} (hold : bank.get key = some (.exchange data)) :
      data.vault ≠ accounts.collateral ∧ data.vault ≠ accounts.exchange := by
    obtain ⟨-, vault, hget, -⟩ := hplaced.vault key data hold
    refine ⟨fun heq => ?_, fun heq => ?_⟩
    · rw [heq, h.reads_collateral] at hget
      cases hget
    · rw [heq, h.reads_exchange] at hget
      cases hget
  rw [Bank.total_set (hfirst.keys ▸ hkeys) hcollateral, Bank.total_set hkeys hexchange, hmove.total,
    Bank.tokens_set hcollateral, Bank.tokens_set hexchange]
  simp only [Account.held, h.belongs hplaced]
  rw [Bank.get_set hcollateral] at hget
  split at hget
  · cases hget
  rw [Bank.get_set hexchange] at hget
  split at hget
  · rename_i hkey
    subst hkey
    cases hget
    have hold := hbacked _ _ h.reads_exchange
    have hvaults := hvaults _ _ h.reads_exchange
    rw [if_neg (hvault h.reads_exchange).1, if_neg (hvault h.reads_exchange).2, if_pos rfl, if_pos rfl]
    rw [if_pos rfl] at hvaults
    dsimp only
    omega
  · rename_i hkey
    obtain ⟨data', hold, -⟩ := hmove.update.exchange hget
    rw [hmove.others _ (by rw [hold]; nofun)] at hget
    have hbacked := hbacked _ _ hget
    have hvaults := hvaults _ _ hget
    rw [if_neg (hvault hget).1, if_neg (hvault hget).2, if_neg (Ne.symm hkey), if_neg (Ne.symm hkey)]
    rw [if_neg hkey] at hvaults
    omega

theorem deposit_collateral_backed (htoken : runtime.TokenProgram) (hplaced : Placed runtime bank)
    (hbacked : Backed bank) (hsigners : ∀ key ∈ signers, runtime.on_curve key = true)
    (h : deposit_collateral runtime bank signers accounts amount = .ok bank') : Update bank bank' ∧ Backed bank' := by
  obtain ⟨⟨exchange, collateral⟩, hchecked, h⟩ := ok_bind_iff.1 h
  simp only [require_bind] at h
  obtain ⟨moved, hmoved, h⟩ := ok_bind_iff.1 h.2.2
  simp only [ok_or_bind, checked_add_eq_some] at h
  obtain ⟨balance, hbalance, total, htotal, h⟩ := h
  cases h
  have hchecked := move_accounts_checked hchecked
  obtain ⟨hmove, -⟩ := htoken.transfers hplaced.keys hmoved
  obtain ⟨tokens, htokens, hauthority⟩ := hchecked.tokens
  refine hchecked.moves hplaced hbacked hmove hbalance htotal fun key data hget => ?_
  have hsource := hplaced.vault_ne hget htokens (by rw [hauthority]; exact hsigners _ hchecked.owner)
  have hamount := u64_bounds amount
  rw [hmove.tokens, transferred, if_neg hsource]
  split
  · rename_i hkey
    subst hkey
    rw [hchecked.reads_exchange] at hget
    cases hget
    rw [if_pos hchecked.vault]
    omega
  · split <;> omega

theorem withdraw_collateral_backed (htoken : runtime.TokenProgram) (hplaced : Placed runtime bank)
    (hbacked : Backed bank) (h : withdraw_collateral runtime bank signers accounts amount = .ok bank') :
    Update bank bank' ∧ Backed bank' := by
  obtain ⟨⟨exchange, collateral⟩, hchecked, h⟩ := ok_bind_iff.1 h
  simp only [require_bind] at h
  obtain ⟨moved, hmoved, h⟩ := ok_bind_iff.1 h.2.2.2
  simp only [ok_or_bind, checked_sub_eq_some] at h
  obtain ⟨balance, hbalance, total, htotal, h⟩ := h
  cases h
  have hchecked := move_accounts_checked hchecked
  obtain ⟨hmove, -⟩ := htoken.transfers hplaced.keys hmoved
  refine hchecked.moves hplaced hbacked hmove hbalance htotal fun key data hget => ?_
  have hamount := u64_bounds amount
  rw [hmove.tokens, transferred]
  split
  · split <;> split <;> omega
  · rename_i hkey
    have hvault : data.vault ≠ accounts.vault := fun heq =>
      hkey (hplaced.vault_inj hget hchecked.reads_exchange (heq.trans hchecked.vault.symm))
    rw [if_neg hvault]
    split <;> omega

theorem freeze_account_backed {accounts : FreezeAccount Key} {frozen : Bool} (hplaced : Placed runtime bank)
    (hbacked : Backed bank) (h : freeze_account runtime bank signers accounts frozen = .ok bank') :
    Update bank bank' ∧ Backed bank' := by
  simp only [freeze_account, ok_or_bind, require_bind, Bank.exchange_eq_some, Bank.collateral_eq_some] at h
  obtain ⟨-, exchange, -, -, collateral, hcollateral, -, h⟩ := h
  cases h
  refine ⟨.set hcollateral rfl, fun key data hget => ?_⟩
  rw [Bank.get_set hcollateral] at hget
  split at hget
  · cases hget
  · obtain ⟨htotal, htokens⟩ := hbacked key data hget
    refine ⟨?_, ?_⟩
    · rw [Bank.total_set hplaced.keys hcollateral, htotal]
      simp [Account.held]
    · rw [Bank.tokens_set hcollateral]
      split
      · obtain ⟨-, vault, hvault, -⟩ := hplaced.vault key data hget
        simp_all
      · exact htokens

/-! ## Tokens that move past the program -/

/-- No vault gets less. -/
theorem TokensMove.backed {change : Key → Int} (h : TokensMove bank bank' change) (hbacked : Backed bank)
    (hvaults : ∀ key data, bank.get key = some (.exchange data) → 0 ≤ change data.vault) : Backed bank' := by
  intro key data hget
  obtain ⟨data', hold, -⟩ := h.update.exchange hget
  rw [h.others key (by rw [hold]; nofun)] at hget
  obtain ⟨htotal, hvault⟩ := hbacked key data hget
  have hchange := hvaults key data hget
  rw [h.total, h.tokens]
  omega

theorem transfer_backed (htoken : runtime.TokenProgram) {source destination authority : Key}
    (hplaced : Placed runtime bank) (hbacked : Backed bank) (hauthority : runtime.on_curve authority = true)
    (h : runtime.token_transfer bank source destination authority amount = .ok bank') :
    Update bank bank' ∧ Backed bank' := by
  obtain ⟨hmove, tokens, htokens, rfl⟩ := htoken.transfers hplaced.keys h
  refine ⟨hmove.update, hmove.backed hbacked fun key data hget => ?_⟩
  have hamount := u64_bounds amount
  rw [transferred, if_neg (hplaced.vault_ne hget htokens hauthority)]
  split <;> omega

theorem mint_to_backed (htoken : runtime.TokenProgram) {destination : Key} (hplaced : Placed runtime bank)
    (hbacked : Backed bank) (h : runtime.mint_to bank destination amount = .ok bank') :
    Update bank bank' ∧ Backed bank' := by
  have hmove := htoken.mints hplaced.keys h
  refine ⟨hmove.update, hmove.backed hbacked fun key data _ => ?_⟩
  have hamount := u64_bounds amount
  rw [minted]
  split <;> omega

/-! ## New accounts -/

theorem init_address_eq_ok {seeds : Seeds Key} {bump : UInt8} (h : init_address runtime bank seeds key = .ok bump) :
    runtime.find_program_address seeds = (key, bump) ∧ bank.get key = none := by
  simp only [init_address, require_bind] at h
  obtain ⟨⟨haddress, hnone⟩, h⟩ := h
  cases h
  exact ⟨by rw [haddress], hnone⟩

/-- A new account that is at its address. -/
theorem Placed.push {account : Account Key} (h : Placed runtime bank) (hnone : bank.get key = none)
    (hvault : ∀ data, account = .exchange data → data.vault = (runtime.find_program_address (.vault key)).1 ∧
      ∃ vault, bank.get data.vault = some (.token vault) ∧ vault.authority = data.vault)
    (hcollateral : ∀ data, account = .collateral data →
      runtime.create_program_address (.collateral data.exchange data.owner) data.bump = some key ∧
      ∃ exchange, bank.get data.exchange = some (.exchange exchange)) :
    Placed runtime (bank ++ [(key, account)]) := by
  have hold {other : Key} {old : Account Key} (hget : bank.get other = some old) :
      (bank ++ [(key, account)]).get other = some old := by
    rw [Bank.get_push hnone, if_neg, hget]
    rintro rfl
    rw [hnone] at hget
    cases hget
  have hkeys : (bank ++ [(key, account)]).keys.Nodup := by
    rw [Bank.keys_push, ← List.concat_eq_append]
    exact h.keys.concat (Bank.notMem_of_get hnone)
  refine ⟨hkeys, fun other data hget => ?_, fun other data hget => ?_⟩ <;>
    rw [Bank.get_push hnone] at hget <;> split at hget
  · rename_i heq
    subst heq
    cases hget
    obtain ⟨haddress, vault, hget, hauthority⟩ := hvault data rfl
    exact ⟨haddress, vault, hold hget, hauthority⟩
  · obtain ⟨haddress, vault, hget, hauthority⟩ := h.vault other data hget
    exact ⟨haddress, vault, hold hget, hauthority⟩
  · rename_i heq
    subst heq
    cases hget
    obtain ⟨haddress, exchange, hget⟩ := hcollateral data rfl
    exact ⟨haddress, exchange, hold hget⟩
  · obtain ⟨haddress, exchange, hget⟩ := h.collateral other data hget
    exact ⟨haddress, exchange, hold hget⟩

/-- A new account that holds nothing, and is no exchange with collateral. -/
theorem Backed.push {account : Account Key} (hplaced : Placed runtime bank) (h : Backed bank)
    (hnone : bank.get key = none) (hheld : ∀ exchange, account.held exchange = 0)
    (htotal : ∀ data, account = .exchange data → val data.total_collateral = 0 ∧ 0 ≤ bank.tokens data.vault ∧ data.vault ≠ key) :
    Backed (bank ++ [(key, account)]) := by
  intro other data hget
  rw [Bank.total_push, hheld, Int.add_zero, Bank.tokens_push hnone]
  rw [Bank.get_push hnone] at hget
  split at hget
  · rename_i heq
    subst heq
    cases hget
    obtain ⟨hzero, htokens, hne⟩ := htotal data rfl
    rw [if_neg hne, hzero]
    refine ⟨?_, htokens⟩
    -- collateral accounts are of exchanges that were there before
    rw [Bank.total, eq_comm]
    refine List.sum_eq_zero fun held hmem => ?_
    obtain ⟨entry, hentry, rfl⟩ := List.mem_map.1 hmem
    have hget := Bank.get_of_mem hplaced.keys hentry
    cases hcase : entry.2 with
    | collateral collateral =>
      rw [hcase] at hget
      obtain ⟨-, exchange, hexchange⟩ := hplaced.collateral _ _ hget
      refine if_neg fun heq => ?_
      rw [heq, hnone] at hexchange
      cases hexchange
    | _ => rfl
  · obtain ⟨-, vault, hvault, -⟩ := hplaced.vault other data hget
    rw [if_neg]
    · exact h other data hget
    · intro heq
      rw [heq, hnone] at hvault
      cases hvault

theorem open_collateral_backed {accounts : OpenCollateral Key} (hplaced : Placed runtime bank) (hbacked : Backed bank)
    (h : open_collateral runtime bank signers accounts = .ok bank') :
    Placed runtime bank' ∧ Backed bank' ∧ bank.keys ⊆ bank'.keys := by
  simp only [open_collateral, ok_or_bind, require_bind, Bank.exchange_eq_some] at h
  obtain ⟨-, exchange, hexchange, h⟩ := h
  obtain ⟨bump, hinit, h⟩ := ok_bind_iff.1 h
  cases h
  obtain ⟨haddress, hnone⟩ := init_address_eq_ok hinit
  have hfound := runtime.found (.collateral accounts.exchange accounts.owner)
  rw [haddress] at hfound
  refine ⟨hplaced.push hnone nofun fun data hdata => ?_, hbacked.push hplaced hnone (fun exchange => ?_) nofun, ?_⟩
  · cases hdata
    exact ⟨hfound, exchange, hexchange⟩
  · simp [Account.held]
  · rw [Bank.keys_push]
    exact List.subset_append_left _ _

theorem initialize_exchange_backed {accounts : InitializeExchange Key} (hplaced : Placed runtime bank)
    (hbacked : Backed bank) (h : initialize_exchange runtime bank signers accounts = .ok bank') :
    Placed runtime bank' ∧ Backed bank' ∧ bank.keys ⊆ bank'.keys := by
  simp only [initialize_exchange, require_bind] at h
  obtain ⟨bump, hinit, h⟩ := ok_bind_iff.1 h.2
  simp only [require_bind] at h
  obtain ⟨vault_bump, hinit', h⟩ := ok_bind_iff.1 h.2
  cases h
  obtain ⟨haddress, hnone⟩ := init_address_eq_ok hinit
  obtain ⟨haddress', hnone'⟩ := init_address_eq_ok hinit'
  have hne : accounts.vault ≠ accounts.exchange := by
    intro heq
    have hfound := runtime.found (.exchange accounts.authority accounts.mint)
    have hfound' := runtime.found (.vault accounts.exchange)
    rw [haddress] at hfound
    rw [haddress'] at hfound'
    cases runtime.unique hfound (heq ▸ hfound')
  let vault : Account Key := .token ⟨accounts.mint, accounts.vault, 0⟩
  have hvault : (bank ++ [(accounts.vault, vault)]).get accounts.vault = some vault := by
    rw [Bank.get_push hnone', if_pos rfl]
  have hexchange : (bank ++ [(accounts.vault, vault)]).get accounts.exchange = none := by
    rw [Bank.get_push hnone', if_neg (Ne.symm hne), hnone]
  have hplaced' : Placed runtime (bank ++ [(accounts.vault, vault)]) := hplaced.push hnone' nofun nofun
  have hbacked' : Backed (bank ++ [(accounts.vault, vault)]) := hbacked.push hplaced hnone' (fun _ => rfl) nofun
  rw [List.append_cons]
  refine ⟨hplaced'.push hexchange (fun data hdata => ?_) nofun,
    hbacked'.push hplaced' hexchange (fun _ => rfl) fun data hdata => ?_, ?_⟩
  · cases hdata
    exact ⟨by rw [haddress'], _, hvault, rfl⟩
  · cases hdata
    refine ⟨u64_val_zero, ?_, hne⟩
    rw [Bank.tokens_eq hvault]
    exact Int.le_refl 0
  · rw [Bank.keys_push, Bank.keys_push, List.append_assoc]
    exact List.subset_append_left _ _

end Invariant

end TradingLab.Solana
