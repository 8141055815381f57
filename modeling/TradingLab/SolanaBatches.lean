import TradingLab.SolanaLedger
/-!
# Batches on Solana

A batch reads and writes its accounts leg by leg. What all of its legs do together, and
with the other instructions of the program: what holds after any sequence of
transactions.
-/
open LabLib

namespace TradingLab.Solana

section Chain
variable {Key : Type} [DecidableEq Key] {runtime : Runtime Key} {bank bank' : Bank Key} {signers : List Key}

/-! ## Legs -/

section Legs
variable {infos : List (AccountInfo Key)} {leg : Leg} {legs : List Leg} {change change' : Key → Int}
variable {exchange_key key : Key}

/-- What a leg pays to an account. -/
def Leg.received (infos : List (AccountInfo Key)) (key : Key) (leg : Leg) : Int :=
  if infos[leg.payee.toNat]?.map AccountInfo.key = some key then val leg.amount else 0

/-- What an account pays for a leg. -/
def Leg.paid (infos : List (AccountInfo Key)) (key : Key) (leg : Leg) : Int :=
  if infos[leg.payer.toNat]?.map AccountInfo.key = some key then val leg.amount else 0

/-- Collateral changes hands within exchanges, and nothing else changes. -/
structure Settles (bank bank' : Bank Key) (change : Key → Int) : Prop where
  update : Update bank bank'
  total : ∀ key, bank'.total key = bank.total key
  others : ∀ key, (∀ data, bank.get key ≠ some (.collateral data)) → bank'.get key = bank.get key
  balance : ∀ key data, bank.get key = some (.collateral data) →
    ∃ balance, bank'.get key = some (.collateral { data with balance := balance }) ∧
      val balance = val data.balance + change key

theorem Settles.refl (bank : Bank Key) : Settles bank bank fun _ => 0 :=
  ⟨.refl bank, fun _ => rfl, fun _ _ => rfl, fun _ data hget => ⟨data.balance, hget, (Int.add_zero _).symm⟩⟩

theorem Settles.trans {bank'' : Bank Key} (h : Settles bank bank' change) (h' : Settles bank' bank'' change') :
    Settles bank bank'' fun key => change key + change' key where
  update := h.update.trans h'.update
  total key := (h'.total key).trans (h.total key)
  others key hkey := by
    have hsame := h.others key hkey
    rw [h'.others key (hsame ▸ hkey), hsame]
  balance key data hget := by
    obtain ⟨balance, hget', hbalance⟩ := h.balance key data hget
    obtain ⟨balance', hget'', hbalance'⟩ := h'.balance key _ hget'
    refine ⟨balance', hget'', ?_⟩
    dsimp only at hbalance'
    omega

/-- The accounts of a batch are collateral accounts of the exchange. -/
def OfExchange (bank : Bank Key) (exchange_key : Key) (infos : List (AccountInfo Key)) : Prop :=
  ∀ info ∈ infos, ∃ data, bank.get info.key = some (.collateral data) ∧ data.exchange = exchange_key

theorem check_accounts_ofExchange {seen : List Key} (h : check_accounts runtime bank exchange_key seen infos = .ok ()) :
    OfExchange bank exchange_key infos := by
  induction infos generalizing seen with
  | nil => exact nofun
  | cons info infos ih =>
    simp only [check_accounts, require_bind, ok_or_bind, Bank.collateral_eq_some] at h
    obtain ⟨-, -, collateral, hget, hexchange, expected, -, -, h⟩ := h
    intro other hmem
    obtain rfl | hmem := List.mem_cons.1 hmem
    · exact ⟨collateral, hget, hexchange⟩
    · exact ih h other hmem

theorem OfExchange.settles (h : OfExchange bank exchange_key infos) (hs : Settles bank bank' change) :
    OfExchange bank' exchange_key infos := by
  intro info hmem
  obtain ⟨data, hget, hexchange⟩ := h info hmem
  obtain ⟨balance, hget', -⟩ := hs.balance _ _ hget
  exact ⟨_, hget', hexchange⟩

omit [DecidableEq Key] in
theorem leg_account_eq_ok {place : UInt8} (h : leg_account infos place = .ok key) :
    infos[place.toNat]?.map AccountInfo.key = some key := by
  rw [leg_account] at h
  cases hkey : infos[place.toNat]?.map AccountInfo.key with
  | none =>
    rw [hkey] at h
    cases h
  | some key' =>
    rw [hkey] at h
    cases h
    rfl

theorem OfExchange.leg_account {place : UInt8} (h : OfExchange bank exchange_key infos)
    (hkey : leg_account infos place = .ok key) :
    ∃ data, bank.get key = some (.collateral data) ∧ data.exchange = exchange_key := by
  obtain ⟨info, hinfo, rfl⟩ := Option.map_eq_some_iff.1 (leg_account_eq_ok hkey)
  exact h info (List.mem_of_getElem? hinfo)

/-- A leg between two accounts moves its amount from the one to the other. -/
theorem apply_leg_settles (hkeys : bank.keys.Nodup) (hinfos : OfExchange bank exchange_key infos)
    {resolved : Key × Key × UInt64} (hresolve : resolve_leg infos leg = .ok resolved)
    (h : apply_leg infos bank leg = .ok bank') :
    Settles bank bank' fun key => leg.received infos key - leg.paid infos key := by
  obtain ⟨payer_key, hpayer_key, h⟩ := ok_bind_iff.1 h
  obtain ⟨payee_key, hpayee_key, h⟩ := ok_bind_iff.1 h
  simp only [ok_or_bind, require_bind, Bank.collateral_eq_some, checked_sub_eq_some, checked_add_eq_some] at h
  obtain ⟨payer, hpayer, payee, hpayee, -, -, paid, hpaid, received, hreceived, h⟩ := h
  cases h
  have hne : payer_key ≠ payee_key := by
    simp only [resolve_leg, require_bind] at hresolve
    obtain ⟨key, hkey, hresolve⟩ := ok_bind_iff.1 hresolve.2.2
    obtain ⟨key', hkey', hresolve⟩ := ok_bind_iff.1 hresolve
    rw [hpayer_key] at hkey
    rw [hpayee_key] at hkey'
    cases hkey
    cases hkey'
    exact (require_bind.1 hresolve).1
  have hsame : payer.exchange = payee.exchange := by
    obtain ⟨data, hget, hdata⟩ := hinfos.leg_account hpayer_key
    obtain ⟨data', hget', hdata'⟩ := hinfos.leg_account hpayee_key
    rw [hpayer] at hget
    rw [hpayee] at hget'
    cases hget
    cases hget'
    rw [hdata, hdata']
  have hpayee' : (bank.set payer_key (.collateral { payer with balance := paid })).get payee_key =
      some (.collateral payee) := by
    rw [Bank.get_set hpayer, if_neg (Ne.symm hne), hpayee]
  have hfirst : Update bank (bank.set payer_key (.collateral { payer with balance := paid })) := .set hpayer rfl
  have hkeys' : (bank.set payer_key (.collateral { payer with balance := paid })).keys.Nodup := hfirst.keys ▸ hkeys
  refine ⟨hfirst.trans (.set hpayee' rfl), fun key => ?_, fun key hkey => ?_, fun key data hget => ?_⟩
  · rw [Bank.total_set hkeys' hpayee', Bank.total_set hkeys hpayer]
    simp only [Account.held, hsame]
    split <;> omega
  · rw [Bank.get_set hpayee', if_neg, Bank.get_set hpayer, if_neg]
    · rintro rfl
      exact hkey payer hpayer
    · rintro rfl
      exact hkey payee hpayee
  · simp only [Leg.received, Leg.paid, leg_account_eq_ok hpayer_key, leg_account_eq_ok hpayee_key, Option.some.injEq]
    rw [Bank.get_set hpayee', Bank.get_set hpayer]
    by_cases hreceiver : key = payee_key
    · subst hreceiver
      rw [hpayee] at hget
      cases hget
      rw [if_pos rfl, if_pos rfl, if_neg hne]
      exact ⟨received, rfl, by omega⟩
    · rw [if_neg hreceiver, if_neg (Ne.symm hreceiver)]
      by_cases hgiver : key = payer_key
      · subst hgiver
        rw [hpayer] at hget
        cases hget
        rw [if_pos rfl, if_pos rfl]
        exact ⟨paid, rfl, by omega⟩
      · rw [if_neg hgiver, if_neg (Ne.symm hgiver)]
        exact ⟨data.balance, hget, by omega⟩

/-- The legs of a batch, one after another: every leg reads what the ones before it wrote. -/
theorem apply_legs_settles (hkeys : bank.keys.Nodup) (hinfos : OfExchange bank exchange_key infos)
    (hresolve : ∀ leg ∈ legs, ∃ resolved, resolve_leg infos leg = .ok resolved)
    (h : legs.foldlM (apply_leg infos) bank = .ok bank') :
    Settles bank bank' fun key => (legs.map (Leg.received infos key)).sum - (legs.map (Leg.paid infos key)).sum := by
  induction legs generalizing bank with
  | nil =>
    cases h
    exact .refl _
  | cons leg legs ih =>
    rw [List.foldlM_cons] at h
    obtain ⟨middle, hmiddle, h⟩ := ok_bind_iff.1 h
    obtain ⟨resolved, hresolved⟩ := hresolve leg List.mem_cons_self
    have hleg := apply_leg_settles hkeys hinfos hresolved hmiddle
    have hlegs := ih (hleg.update.keys ▸ hkeys) (hinfos.settles hleg) (fun leg hmem => hresolve leg (List.mem_cons_of_mem _ hmem)) h
    have hall := hleg.trans hlegs
    refine ⟨hall.update, hall.total, hall.others, fun key data hget => ?_⟩
    obtain ⟨balance, hget', hbalance⟩ := hall.balance key data hget
    refine ⟨balance, hget', ?_⟩
    rw [List.map_cons, List.map_cons, List.sum_cons, List.sum_cons]
    omega

theorem Settles.backed (hs : Settles bank bank' change) (hplaced : Placed runtime bank) (h : Backed bank) : Backed bank' := by
  intro key data hget
  obtain ⟨old, hold, -⟩ := hs.update.exchange hget
  rw [hs.others key (by rw [hold]; simp)] at hget
  obtain ⟨-, vault, hvault, -⟩ := hplaced.vault key data hget
  rw [hs.total, Bank.tokens, hs.others data.vault (by rw [hvault]; simp)]
  exact h key data hget

/-! ## Batches -/

variable {slot : UInt64} {context : SettleBatch Key} {settlement_id : SettlementId} {supplied_hash : Digest}

/-- What a batch that was settled has done: its legs, one more settlement, and its receipt. -/
theorem settle_batch_eq_ok (hkeys : bank.keys.Nodup)
    (h : settle_batch runtime bank signers slot context infos settlement_id supplied_hash legs = .ok bank') :
    ∃ exchange settled settlements receipt,
      bank.get context.exchange = some (.exchange exchange) ∧
      (runtime.find_program_address (.receipt context.exchange settlement_id)).1 = context.receipt ∧
      bank.get context.receipt = none ∧
      Settles bank settled (fun key => (legs.map (Leg.received infos key)).sum - (legs.map (Leg.paid infos key)).sum) ∧
      bank' = settled.set context.exchange (.exchange { exchange with settlements := settlements }) ++
        [(context.receipt, .receipt receipt)] := by
  simp only [settle_batch, require_bind, ok_or_bind, Bank.exchange_eq_some] at h
  obtain ⟨-, exchange, hexchange, -, h⟩ := h
  obtain ⟨bump, hinit, h⟩ := ok_bind_iff.1 h
  simp only [require_bind] at h
  obtain ⟨⟨⟩, hcheck, h⟩ := ok_bind_iff.1 h.2.2
  obtain ⟨resolved, hresolved, h⟩ := ok_bind_iff.1 h
  simp only [require_bind] at h
  obtain ⟨settled, hsettled, h⟩ := ok_bind_iff.1 h.2
  simp only [ok_or_bind] at h
  obtain ⟨settlements, -, h⟩ := h
  cases h
  obtain ⟨haddress, hnone⟩ := init_address_eq_ok hinit
  exact ⟨exchange, settled, settlements, _, hexchange, by rw [haddress], hnone,
    apply_legs_settles hkeys (check_accounts_ofExchange hcheck) (fun leg hmem => ok_of_mapM hresolved hmem) hsettled, rfl⟩

/-! ## Resolved legs -/

/-- What a leg does to the accounts of its two keys. -/
def move_collateral (bank : Bank Key) (leg : Key × Key × UInt64) : Except ProgramError (Bank Key) := do
  let (payer_key, payee_key, amount) := leg
  let payer ← ok_or (bank.collateral payer_key) .account
  let payee ← ok_or (bank.collateral payee_key) .account
  require (payer.frozen = false ∧ payee.frozen = false) (.settlement .AccountFrozen)
  require (amount ≤ payer.balance) (.settlement .InsufficientCollateral)
  let paid ← ok_or (checked_sub payer.balance amount) (.settlement .AmountOverflow)
  let received ← ok_or (checked_add payee.balance amount) (.settlement .AmountOverflow)
  return (bank.set payer_key (.collateral { payer with balance := paid })).set
    payee_key (.collateral { payee with balance := received })

/-- A leg moves between the keys it was resolved to. -/
theorem apply_leg_resolved {leg : Leg} {resolved : Key × Key × UInt64} (h : resolve_leg infos leg = .ok resolved)
    (bank : Bank Key) : apply_leg infos bank leg = move_collateral bank resolved := by
  simp only [resolve_leg, require_bind] at h
  obtain ⟨-, -, h⟩ := h
  obtain ⟨payer, hpayer, h⟩ := ok_bind_iff.1 h
  obtain ⟨payee, hpayee, h⟩ := ok_bind_iff.1 h
  obtain ⟨-, h⟩ := require_bind.1 h
  cases h
  rw [apply_leg, hpayer, hpayee]
  rfl

theorem apply_legs_resolved {legs : List Leg} {resolved : List (Key × Key × UInt64)}
    (h : legs.mapM (resolve_leg infos) = .ok resolved) (bank : Bank Key) :
    legs.foldlM (apply_leg infos) bank = resolved.foldlM move_collateral bank := by
  induction legs generalizing resolved bank with
  | nil =>
    cases h
    rfl
  | cons leg legs ih =>
    rw [List.mapM_cons] at h
    obtain ⟨first, hfirst, h⟩ := ok_bind_iff.1 h
    obtain ⟨rest, hrest, h⟩ := ok_bind_iff.1 h
    cases h
    rw [List.foldlM_cons, List.foldlM_cons, apply_leg_resolved hfirst]
    congr 1
    funext moved
    exact ih hrest moved

/-- A batch that was settled has the hash of its resolved legs, and has applied these. -/
theorem settle_batch_resolved {signers : List Key} {slot : UInt64} {context : SettleBatch Key}
    {settlement_id : SettlementId} {supplied_hash : Digest} {legs : List Leg}
    (h : settle_batch runtime bank signers slot context infos settlement_id supplied_hash legs = .ok bank') :
    ∃ resolved moved exchange receipt, legs.mapM (resolve_leg infos) = .ok resolved ∧
      resolved.length ≤ MAX_LEGS ∧
      runtime.hash (manifest_bytes runtime.as_ref settlement_id context.exchange resolved) = supplied_hash ∧
      resolved.foldlM move_collateral bank = .ok moved ∧
      bank' = moved.set context.exchange (.exchange exchange) ++ [(context.receipt, .receipt receipt)] := by
  simp only [settle_batch, require_bind, ok_or_bind] at h
  obtain ⟨-, exchange, -, -, h⟩ := h
  obtain ⟨bump, -, h⟩ := ok_bind_iff.1 h
  simp only [require_bind] at h
  obtain ⟨-, hfew, h⟩ := h
  obtain ⟨⟨⟩, -, h⟩ := ok_bind_iff.1 h
  obtain ⟨resolved, hresolved, h⟩ := ok_bind_iff.1 h
  obtain ⟨hhash, h⟩ := require_bind.1 h
  obtain ⟨moved, hmoved, h⟩ := ok_bind_iff.1 h
  simp only [ok_or_bind] at h
  obtain ⟨settlements, -, h⟩ := h
  cases h
  rw [apply_legs_resolved hresolved] at hmoved
  exact ⟨resolved, moved, _, _, hresolved, by rw [length_of_mapM hresolved]; exact hfew, hhash, hmoved, rfl⟩

/-! ## Balances -/

/-- A settlement more, and the same collateral. -/
theorem Backed.set_settlements {exchange : Exchange Key} {settlements : UInt64} (hplaced : Placed runtime bank)
    (h : Backed bank) (hget : bank.get key = some (.exchange exchange)) :
    Backed (bank.set key (.exchange { exchange with settlements := settlements })) := by
  intro other data hother
  have hheld : (bank.set key (.exchange { exchange with settlements := settlements })).total other = bank.total other := by
    rw [Bank.total_set hplaced.keys hget]
    simp [Account.held]
  have htokens {data : Exchange Key} (hdata : bank.get other = some (.exchange data)) :
      (bank.set key (.exchange { exchange with settlements := settlements })).tokens data.vault = bank.tokens data.vault := by
    obtain ⟨-, vault, hvault, -⟩ := hplaced.vault other data hdata
    rw [Bank.tokens_set hget, if_neg]
    intro heq
    rw [heq, hget] at hvault
    cases hvault
  rw [Bank.get_set hget] at hother
  rw [hheld]
  split at hother
  · rename_i heq
    subst heq
    cases hother
    have hsame := h _ _ hget
    rw [← htokens hget] at hsame
    exact hsame
  · rw [htokens hother]
    exact h _ _ hother

theorem settle_batch_backed (hplaced : Placed runtime bank) (hbacked : Backed bank)
    (h : settle_batch runtime bank signers slot context infos settlement_id supplied_hash legs = .ok bank') :
    Placed runtime bank' ∧ Backed bank' ∧ context.receipt :: bank.keys ⊆ bank'.keys := by
  obtain ⟨exchange, settled, settlements, receipt, hexchange, -, hnone, hsettles, rfl⟩ := settle_batch_eq_ok hplaced.keys h
  have hexchange' : settled.get context.exchange = some (.exchange exchange) := by
    rw [hsettles.others _ (by rw [hexchange]; nofun), hexchange]
  have hplaced' := hplaced.update hsettles.update
  have hset : Update settled (settled.set context.exchange (.exchange { exchange with settlements := settlements })) :=
    .set hexchange' rfl
  have hplaced'' := hplaced'.update hset
  have hbacked' : Backed (settled.set context.exchange (.exchange { exchange with settlements := settlements })) :=
    (hsettles.backed hplaced hbacked).set_settlements hplaced' hexchange'
  have hnone' : (settled.set context.exchange (.exchange { exchange with settlements := settlements })).get
      context.receipt = none := by
    have hfixed := (hsettles.update.trans hset).fixed context.receipt
    rwa [hnone, Option.map_none, Option.map_eq_none_iff] at hfixed
  refine ⟨hplaced''.push hnone' nofun nofun, hbacked'.push hplaced'' hnone' (fun _ => rfl) nofun, ?_⟩
  rw [Bank.keys_push, (hsettles.update.trans hset).keys]
  simp

/-- The balances after a batch. -/
theorem settle_batch_balance (hplaced : Placed runtime bank)
    (h : settle_batch runtime bank signers slot context infos settlement_id supplied_hash legs = .ok bank')
    {data : Collateral Key} (hget : bank.get key = some (.collateral data)) :
    ∃ balance, bank'.get key = some (.collateral { data with balance := balance }) ∧
      val balance = val data.balance + (legs.map (Leg.received infos key)).sum - (legs.map (Leg.paid infos key)).sum := by
  obtain ⟨exchange, settled, settlements, receipt, hexchange, -, hnone, hsettles, rfl⟩ := settle_batch_eq_ok hplaced.keys h
  obtain ⟨balance, hget', hbalance⟩ := hsettles.balance key data hget
  have hexchange' : settled.get context.exchange = some (.exchange exchange) := by
    rw [hsettles.others _ (by rw [hexchange]; nofun), hexchange]
  refine ⟨balance, ?_, by omega⟩
  have hne : key ≠ context.exchange := by
    rintro rfl
    rw [hexchange] at hget
    cases hget
  have hset : (settled.set context.exchange (.exchange { exchange with settlements := settlements })).get key =
      some (.collateral { data with balance := balance }) := by
    rw [Bank.get_set hexchange', if_neg hne, hget']
  rw [Bank.get, List.find?_append]
  rw [Bank.get, Option.map_eq_some_iff] at hset
  obtain ⟨entry, hentry, hdata⟩ := hset
  rw [hentry, Option.some_or, Option.map_some, hdata]

end Legs

/-! ## Transactions -/

theorem execute_backed (htoken : runtime.TokenProgram) {signers : List Key} {slot : UInt64}
    {instruction : Instruction Key} (hplaced : Placed runtime bank)
    (hbacked : Backed bank) (hsigners : ∀ key ∈ signers, runtime.on_curve key = true)
    (h : execute runtime bank signers slot instruction = .ok bank') :
    Placed runtime bank' ∧ Backed bank' ∧ bank.keys ⊆ bank'.keys := by
  have hupdate (h : Update bank bank' ∧ Backed bank') : Placed runtime bank' ∧ Backed bank' ∧ bank.keys ⊆ bank'.keys :=
    ⟨hplaced.update h.1, h.2, fun key hmem => h.1.keys ▸ hmem⟩
  cases instruction with
  | initialize_exchange accounts => exact initialize_exchange_backed hplaced hbacked h
  | open_collateral accounts => exact open_collateral_backed hplaced hbacked h
  | deposit_collateral accounts amount => exact hupdate (deposit_collateral_backed htoken hplaced hbacked hsigners h)
  | withdraw_collateral accounts amount => exact hupdate (withdraw_collateral_backed htoken hplaced hbacked h)
  | freeze_account accounts frozen => exact hupdate (freeze_account_backed hplaced hbacked h)
  | settle_batch context accounts settlement_id manifest_hash legs =>
    obtain ⟨hplaced', hbacked', hkeys⟩ := settle_batch_backed hplaced hbacked h
    exact ⟨hplaced', hbacked', fun key hmem => hkeys (List.mem_cons_of_mem _ hmem)⟩
  | transfer source destination authority amount =>
    obtain ⟨hauthority, h⟩ := require_bind.1 h
    exact hupdate (transfer_backed htoken hplaced hbacked (hsigners _ hauthority) h)
  | mint_to destination amount => exact hupdate (mint_to_backed htoken hplaced hbacked h)

/-- A batch has its receipt after it was settled, and not before. -/
theorem execute_receipt {signers : List Key} {slot : UInt64} {instruction : Instruction Key} (hplaced : Placed runtime bank)
    (hbacked : Backed bank) (h : execute runtime bank signers slot instruction = .ok bank') {batch : Key × SettlementId}
    (hbatch : batch ∈ instruction.batch) :
    (runtime.find_program_address (.receipt batch.1 batch.2)).1 ∉ bank.keys ∧
      (runtime.find_program_address (.receipt batch.1 batch.2)).1 ∈ bank'.keys := by
  cases instruction with
  | settle_batch context accounts settlement_id manifest_hash legs =>
    rw [Instruction.batch, List.mem_singleton] at hbatch
    subst hbatch
    obtain ⟨-, -, hkeys⟩ := settle_batch_backed hplaced hbacked h
    obtain ⟨-, -, -, -, -, haddress, hnone, -⟩ := settle_batch_eq_ok hplaced.keys h
    rw [haddress]
    exact ⟨Bank.notMem_of_get hnone, hkeys List.mem_cons_self⟩
  | _ => cases hbatch

/-- What every chain keeps. -/
structure Chain.Sound (runtime : Runtime Key) (chain : Chain Key) : Prop where
  placed : Placed runtime chain.bank
  backed : Backed chain.bank
  receipts : ∀ batch ∈ chain.settled, (runtime.find_program_address (.receipt batch.1 batch.2)).1 ∈ chain.bank.keys
  once : chain.settled.Nodup

theorem Chain.Sound.step (htoken : runtime.TokenProgram) {chain chain' : Chain Key} {transaction : Transaction Key}
    (h : chain.Sound runtime)
    (hstep : chain.step runtime transaction = some chain') : chain'.Sound runtime := by
  rw [Chain.step] at hstep
  split at hstep
  · rename_i hsigners
    rw [List.all_eq_true] at hsigners
    split at hstep
    · rename_i bank hbank
      cases hstep
      obtain ⟨hplaced, hbacked, hkeys⟩ := execute_backed htoken h.placed h.backed hsigners hbank
      have hreceipt {batch : Key × SettlementId} (hmem : batch ∈ transaction.instruction.batch) :=
        execute_receipt h.placed h.backed hbank hmem
      refine ⟨hplaced, hbacked, fun batch hmem => ?_, List.nodup_append.2 ⟨h.once, ?_, ?_⟩⟩
      · obtain hmem | hmem := List.mem_append.1 hmem
        · exact hkeys (h.receipts batch hmem)
        · exact (hreceipt hmem).2
      · cases transaction.instruction <;> simp [Instruction.batch]
      · rintro batch hmem _ hmem' rfl
        exact (hreceipt hmem').1 (h.receipts batch hmem)
    · cases hstep
      exact h
  · cases hstep

/-- Token accounts and mints only, as before the program's first transaction. -/
def Account.external : Account Key → Bool
  | .token _ => true
  | .mint => true
  | _ => false

theorem Chain.Sound.init (hkeys : bank.keys.Nodup) (hexternal : ∀ entry ∈ bank, entry.2.external = true) :
    ({ bank := bank, settled := [] } : Chain Key).Sound runtime where
  placed := by
    refine ⟨hkeys, fun key data hget => ?_, fun key data hget => ?_⟩
    · cases hexternal _ (Bank.mem_of_get hget)
    · cases hexternal _ (Bank.mem_of_get hget)
  backed key data hget := by
    cases hexternal _ (Bank.mem_of_get hget)
  receipts := nofun
  once := List.nodup_nil

/-- Whatever transactions there were: the total of an exchange is what its collateral
accounts have together, and its vault has that many tokens; the next batch changes every
collateral account by what its legs pay to it less what they take from it; and no batch was
settled twice. -/
theorem collateral_is_conserved (runtime : Runtime Key) (htoken : runtime.TokenProgram) (bank : Bank Key)
    (hkeys : bank.keys.Nodup)
    (hexternal : ∀ entry ∈ bank, entry.2.external = true) {chain : Chain Key}
    (hreach : Reach (Chain.step runtime) (fun _ _ => True) { bank := bank, settled := [] } chain) :
    (∀ key exchange, chain.bank.get key = some (.exchange exchange) →
      val exchange.total_collateral = chain.bank.total key ∧
      val exchange.total_collateral ≤ chain.bank.tokens exchange.vault) ∧
    (∀ signers slot context infos settlement_id manifest_hash legs bank',
      settle_batch runtime chain.bank signers slot context infos settlement_id manifest_hash legs = .ok bank' →
      ∀ key collateral, chain.bank.get key = some (.collateral collateral) →
        ∃ balance, bank'.get key = some (.collateral { collateral with balance := balance }) ∧
          val balance = val collateral.balance + (legs.map (Leg.received infos key)).sum -
            (legs.map (Leg.paid infos key)).sum) ∧
    chain.settled.Nodup := by
  have hsound : chain.Sound runtime :=
    hreach.inv (Chain.Sound runtime) (.init hkeys hexternal) fun _ _ _ h _ hstep => h.step htoken hstep
  refine ⟨hsound.backed, ?_, hsound.once⟩
  intro signers slot context infos settlement_id manifest_hash legs bank' h key collateral hget
  exact settle_batch_balance hsound.placed h hget

end Chain

/-- Users, and the addresses of the program. -/
inductive TestKey where
  | user (number : Nat)
  | exchange (authority mint : TestKey)
  | vault (exchange : TestKey)
  | collateral (exchange owner : TestKey)
  | receipt (exchange : TestKey) (settlement_id : SettlementId)
deriving DecidableEq

def testAddress : Seeds TestKey → TestKey
  | .exchange authority mint => .exchange authority mint
  | .vault exchange => .vault exchange
  | .collateral exchange owner => .collateral exchange owner
  | .receipt exchange settlement_id => .receipt exchange settlement_id

theorem testAddress_inj {seeds seeds' : Seeds TestKey} (h : testAddress seeds = testAddress seeds') : seeds = seeds' := by
  cases seeds <;> cases seeds' <;> cases h <;> rfl

section TokenProgram
variable {Key : Type} [DecidableEq Key] {bank bank' : Bank Key}

/-- A token program: it checks the authority and the mint, and moves the amount. -/
def testTransfer (bank : Bank Key) (source destination authority : Key) (amount : UInt64) :
    Except ProgramError (Bank Key) := do
  let tokens ← ok_or (bank.token source) .token
  let target ← ok_or (bank.token destination) .token
  require (tokens.authority = authority ∧ tokens.mint = target.mint ∧ source ≠ destination) .token
  let left ← ok_or (checked_sub tokens.amount amount) .token
  let sum ← ok_or (checked_add target.amount amount) .token
  return (bank.set source (.token { tokens with amount := left })).set destination (.token { target with amount := sum })

def testMint (bank : Bank Key) (destination : Key) (amount : UInt64) : Except ProgramError (Bank Key) := do
  let target ← ok_or (bank.token destination) .token
  let sum ← ok_or (checked_add target.amount amount) .token
  return bank.set destination (.token { target with amount := sum })

/-- Another amount in a token account. -/
theorem set_tokens_move {key : Key} {data : TokenAccount Key} (hkeys : bank.keys.Nodup)
    (hget : bank.get key = some (.token data)) (amount : UInt64) :
    TokensMove bank (bank.set key (.token { data with amount := amount }))
      fun other => if other = key then val amount - val data.amount else 0 := by
  refine ⟨.set hget rfl, fun exchange => ?_, fun other hother => ?_, fun other => ?_⟩
  · rw [Bank.total_set hkeys hget]
    simp [Account.held]
  · rw [Bank.get_set hget, if_neg]
    rintro rfl
    exact hother data hget
  · rw [Bank.tokens_set hget]
    split
    · rename_i heq
      rw [heq, Bank.tokens_eq hget]
      simp only [Account.tokens]
      omega
    · omega

theorem TokensMove.trans {bank'' : Bank Key} {change change' : Key → Int} (h : TokensMove bank bank' change)
    (h' : TokensMove bank' bank'' change') : TokensMove bank bank'' fun key => change key + change' key where
  update := h.update.trans h'.update
  total key := (h'.total key).trans (h.total key)
  others key hkey := by
    have hsame := h.others key hkey
    rw [h'.others key (by rw [hsame]; exact hkey), hsame]
  tokens key := by rw [h'.tokens, h.tokens, Int.add_assoc]

theorem testTransfer_moves {source destination authority : Key} {amount : UInt64} (hkeys : bank.keys.Nodup)
    (h : testTransfer bank source destination authority amount = .ok bank') :
    TokensMove bank bank' (transferred source destination amount) ∧
      ∃ tokens, bank.get source = some (.token tokens) ∧ tokens.authority = authority := by
  simp only [testTransfer, ok_or_bind, require_bind, Bank.token_eq_some, checked_sub_eq_some, checked_add_eq_some] at h
  obtain ⟨tokens, hsource, target, hdestination, ⟨hauthority, -, hne⟩, left, hleft, sum, hsum, h⟩ := h
  cases h
  refine ⟨?_, tokens, hsource, hauthority⟩
  have hpaid := set_tokens_move hkeys hsource left
  have hdestination' : (bank.set source (.token { tokens with amount := left })).get destination = some (.token target) := by
    rw [Bank.get_set hsource, if_neg (Ne.symm hne), hdestination]
  have hboth := hpaid.trans (set_tokens_move (hpaid.update.keys ▸ hkeys) hdestination' sum)
  refine ⟨hboth.update, hboth.total, hboth.others, fun key => ?_⟩
  rw [hboth.tokens, transferred]
  split <;> split <;> omega

theorem testMint_moves {destination : Key} {amount : UInt64} (hkeys : bank.keys.Nodup)
    (h : testMint bank destination amount = .ok bank') : TokensMove bank bank' (minted destination amount) := by
  simp only [testMint, ok_or_bind, Bank.token_eq_some, checked_add_eq_some] at h
  obtain ⟨target, htarget, sum, hsum, h⟩ := h
  cases h
  have hmove := set_tokens_move hkeys htarget sum
  refine ⟨hmove.update, hmove.total, hmove.others, fun key => ?_⟩
  rw [hmove.tokens, minted]
  split <;> omega

end TokenProgram

def testRuntime : Runtime TestKey where
  as_ref _ := []
  hash _ := .replicate 32 0
  create_program_address seeds bump := if bump = 255 then some (testAddress seeds) else none
  find_program_address seeds := (testAddress seeds, 255)
  on_curve
    | .user _ => true
    | _ => false
  token_transfer := testTransfer
  mint_to := testMint
  found seeds := if_pos rfl
  unique h h' := by
    simp only [Option.ite_none_right_eq_some, Option.some.injEq] at h h'
    exact testAddress_inj (h.2.trans h'.2.symm)
  off_curve {seeds _ _} h := by
    simp only [Option.ite_none_right_eq_some, Option.some.injEq] at h
    obtain ⟨-, rfl⟩ := h
    cases seeds <;> rfl

theorem testRuntime_token : testRuntime.TokenProgram := ⟨testTransfer_moves, testMint_moves⟩

/-- An operator and two traders, the mint, and the traders' tokens. -/
def testBank : Bank TestKey :=
  [(.user 3, .mint), (.user 4, .token ⟨.user 3, .user 1, 100⟩), (.user 5, .token ⟨.user 3, .user 2, 50⟩)]

/-- Both traders deposit, and a batch of two legs moves 30 and then 10 of it back. -/
def testTransactions : List (Transaction TestKey) :=
  let exchange : TestKey := .exchange (.user 0) (.user 3)
  let first : TestKey := .collateral exchange (.user 1)
  let second : TestKey := .collateral exchange (.user 2)
  let settlement_id : SettlementId := .replicate 16 7
  [⟨[.user 0], 1, .initialize_exchange ⟨.user 0, exchange, .user 3, .vault exchange⟩⟩,
    ⟨[.user 1], 2, .open_collateral ⟨.user 1, exchange, first⟩⟩,
    ⟨[.user 2], 2, .open_collateral ⟨.user 2, exchange, second⟩⟩,
    ⟨[.user 1], 3, .deposit_collateral ⟨.user 1, exchange, first, .user 3, .user 4, .vault exchange⟩ 80⟩,
    ⟨[.user 2], 3, .deposit_collateral ⟨.user 2, exchange, second, .user 3, .user 5, .vault exchange⟩ 20⟩,
    ⟨[.user 0], 4, .settle_batch ⟨.user 0, exchange, .receipt exchange settlement_id⟩ [⟨first, true⟩, ⟨second, true⟩]
      settlement_id (.replicate 32 0) [⟨0, 1, 30⟩, ⟨1, 0, 10⟩]⟩]

theorem collateral_is_conserved_small :
    ∃ chain ∈ walk (Chain.step testRuntime) (fun _ _ => True) { bank := testBank, settled := [] } testTransactions,
      (chain.bank.collateral (.collateral (.exchange (.user 0) (.user 3)) (.user 1))).map Collateral.balance = some 60 ∧
      chain.settled.length = 1 ∧ chain.settled.Nodup := by
  have hwalk : ∃ chain ∈ walk (Chain.step testRuntime) (fun _ _ => True) { bank := testBank, settled := [] } testTransactions,
      (chain.bank.collateral (.collateral (.exchange (.user 0) (.user 3)) (.user 1))).map Collateral.balance = some 60 ∧
      chain.settled.length = 1 := by
    decide +kernel
  obtain ⟨chain, hchain, hbalance, hlength⟩ := hwalk
  exact ⟨chain, hchain, hbalance, hlength,
    (collateral_is_conserved testRuntime testRuntime_token testBank (by decide) (by decide) (reach_of_walk hchain)).2.2⟩

end TradingLab.Solana
