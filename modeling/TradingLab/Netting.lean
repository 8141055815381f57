import TradingLab.Lib.Guards
import TradingLab.Lib.Tally
import TradingLab.CantonVenue
/-!
# The legs of a batch

`buildLegs` of the two venues. Each nets the trades of a manifest in a table of its own,
under the places of the accounts on Solana and under a text of the two parties on Canton.
Both make the same legs, between the same accounts and in the same order.
-/
open LabLib

namespace TradingLab

/-! ## Accounts -/

namespace ManifestTrade

def buyer (trade : ManifestTrade) : AccountId := if trade.aggressor = .Buy then trade.takerAccount else trade.makerAccount

def seller (trade : ManifestTrade) : AccountId := if trade.aggressor = .Buy then trade.makerAccount else trade.takerAccount

def notional (trade : ManifestTrade) : Int := val trade.priceTicks * val trade.quantityLots

end ManifestTrade

/-- A buyer owes the notional to a seller, unless they are the same account. -/
def obligation (trade : ManifestTrade) : Option ((AccountId × AccountId) × Int) :=
  if trade.buyer = trade.seller then none else some ((trade.buyer, trade.seller), trade.notional)

/-- What the accounts owe each other in a batch: one leg for a buyer and a seller, in the order of their first trades. -/
def accountLegs (trades : List ManifestTrade) : List ((AccountId × AccountId) × Int) :=
  tally (trades.filterMap obligation)

/-- The legs move for every account what its trades do, once for each two accounts, and never back to the payer. -/
structure Nets (trades : List ManifestTrade) (legs : List ((AccountId × AccountId) × Int)) : Prop where
  net : ∀ account,
    (legs.map fun leg => if leg.1.2 = account then leg.2 else 0).sum -
      (legs.map fun leg => if leg.1.1 = account then leg.2 else 0).sum =
    (trades.map fun trade => if trade.seller = account then trade.notional else 0).sum -
      (trades.map fun trade => if trade.buyer = account then trade.notional else 0).sum
  once : (legs.map Prod.fst).Nodup
  apart : ∀ leg ∈ legs, leg.1.1 ≠ leg.1.2

theorem accountLegs_net (trades : List ManifestTrade) (account : AccountId) :
    totalOf (fun pair => pair.2 = account) (trades.filterMap obligation) -
      totalOf (fun pair => pair.1 = account) (trades.filterMap obligation) =
    (trades.map fun trade => if trade.seller = account then trade.notional else 0).sum -
      (trades.map fun trade => if trade.buyer = account then trade.notional else 0).sum := by
  induction trades with
  | nil => rfl
  | cons trade trades ih =>
    rw [List.filterMap_cons, obligation, List.map_cons, List.map_cons, List.sum_cons, List.sum_cons]
    by_cases hself : trade.buyer = trade.seller
    · -- A trade with itself counts on both sides.
      rw [if_pos hself]
      dsimp only
      rw [ih, hself]
      omega
    · rw [if_neg hself]
      simp only [totalOf, List.map_cons, List.sum_cons] at ih ⊢
      omega

theorem nets_accountLegs (trades : List ManifestTrade) : Nets trades (accountLegs trades) where
  net account := by
    have h := accountLegs_net trades account
    have hpaid := total_tally (fun pair => pair.1 = account) (trades.filterMap obligation)
    have hreceived := total_tally (fun pair => pair.2 = account) (trades.filterMap obligation)
    rw [← hpaid, ← hreceived] at h
    exact h
  once := nodup_tally _
  apart leg hleg := by
    have hkey : leg.1 ∈ (trades.filterMap obligation).map Prod.fst := mem_keys_tally.1 (List.mem_map_of_mem hleg)
    obtain ⟨item, hitem, heq⟩ := List.mem_map.1 hkey
    obtain ⟨trade, -, htrade⟩ := List.mem_filterMap.1 hitem
    rw [obligation] at htrade
    split at htrade
    · cases htrade
    · rename_i hne
      cases htrade
      rw [← heq]
      exact hne

/-- The tally with one more trade. -/
theorem accountLegs_concat (trades : List ManifestTrade) (trade : ManifestTrade) :
    accountLegs (trades ++ [trade]) =
      if trade.buyer = trade.seller then accountLegs trades
      else tallied (accountLegs trades) ((trade.buyer, trade.seller), trade.notional) := by
  rw [accountLegs, accountLegs, List.filterMap_append, List.filterMap_cons, List.filterMap_nil, obligation]
  split
  · rename_i heq
    split at heq
    · rename_i hself
      rw [if_pos hself, List.append_nil]
    · cases heq
  · rename_i heq
    split at heq
    · cases heq
    · rename_i hne
      cases heq
      rw [if_neg hne, tally, List.foldl_append]
      rfl

/-! ## Canton -/

namespace CantonVenue
variable {venue : CantonVenue} {trades : List ManifestTrade} {trade : ManifestTrade} {netted : List (String × PartyNet)}

/-- No two accounts have the same party. -/
def OwnParties (venue : CantonVenue) : Prop :=
  ∀ account account' party, venue.party account = some party → venue.party account' = some party → account = account'

/-- The key of a leg tells its two parties. -/
def KeysTell (venue : CantonVenue) : Prop :=
  ∀ payer payee payer' payee', (∃ account, venue.party account = some payer) → (∃ account, venue.party account = some payee) →
    (∃ account, venue.party account = some payer') → (∃ account, venue.party account = some payee') →
    legKey payer payee = legKey payer' payee' → payer = payer' ∧ payee = payee'

/-- It does if there is no bar in the names of the parties. -/
theorem keysTell_of_no_bar (h : ∀ account party, venue.party account = some party → '|' ∉ party.toList) : venue.KeysTell := by
  rintro payer payee payer' payee' ⟨a, ha⟩ ⟨b, hb⟩ ⟨c, hc⟩ ⟨d, hd⟩ heq
  have hlist : payer.toList ++ '|' :: payee.toList = payer'.toList ++ '|' :: payee'.toList := by
    simpa [legKey] using congrArg String.toList heq
  obtain ⟨hpayer, -, hpayee⟩ := (List.append_cons_inj_of_notMem (h a payer ha) (h b payee hb)).1 hlist
  exact ⟨String.toList_inj.1 hpayer, String.toList_inj.1 hpayee⟩

def pairKey (venue : CantonVenue) (pair : AccountId × AccountId) : String :=
  legKey ((venue.party pair.1).getD "") ((venue.party pair.2).getD "")

/-- The entry of the table for a leg between two accounts. -/
def net (venue : CantonVenue) (leg : (AccountId × AccountId) × Int) : String × PartyNet :=
  (venue.pairKey leg.1, ⟨(venue.party leg.1.1).getD "", (venue.party leg.1.2).getD "", leg.2⟩)

/-- All of the accounts have parties. -/
def Known (venue : CantonVenue) (legs : List ((AccountId × AccountId) × Int)) : Prop :=
  ∀ leg ∈ legs, (venue.party leg.1.1).isSome ∧ (venue.party leg.1.2).isSome

theorem partyFor_eq_ok {account : AccountId} {party : String} : venue.partyFor account = .ok party ↔ venue.party account = some party := by
  rw [partyFor]
  cases venue.party account with
  | none => exact ⟨nofun, nofun⟩
  | some party' => simp

theorem addNet_eq (netted : List (String × PartyNet)) (payer payee : String) (amount : Int) :
    addNet netted payer payee amount =
      amendOrAdd Prod.fst (legKey payer payee)
        (fun entry => (entry.1, { entry.2 with amount := entry.2.amount + amount }))
        (legKey payer payee, ⟨payer, payee, amount⟩) netted := by
  rw [addNet, amendOrAdd]
  by_cases h : legKey payer payee ∈ netted.map Prod.fst
  · rw [if_pos h, if_pos]
    · rfl
    · obtain ⟨entry, hentry, heq⟩ := List.mem_map.1 h
      exact List.any_eq_true.2 ⟨entry, hentry, decide_eq_true heq⟩
  · rw [if_neg h, if_neg]
    intro hany
    obtain ⟨entry, hentry, heq⟩ := List.any_eq_true.1 hany
    exact h (List.mem_map.2 ⟨entry, hentry, of_decide_eq_true heq⟩)

theorem addTrade_eq (venue : CantonVenue) (netted : List (String × PartyNet)) (trade : ManifestTrade) :
    venue.addTrade netted trade =
      if trade.buyer = trade.seller then .ok netted
      else do
        let payer ← venue.partyFor trade.buyer
        let payee ← venue.partyFor trade.seller
        return addNet netted payer payee trade.notional := rfl

/-- One trade takes the table along with the legs between accounts. -/
theorem addTrade_net (hown : venue.OwnParties) (hkeys : venue.KeysTell) (hknown : venue.Known (accountLegs trades))
    (h : venue.addTrade ((accountLegs trades).map venue.net) trade = .ok netted) :
    netted = (accountLegs (trades ++ [trade])).map venue.net ∧ venue.Known (accountLegs (trades ++ [trade])) := by
  rw [accountLegs_concat]
  rw [addTrade_eq] at h
  by_cases hself : trade.buyer = trade.seller
  · rw [if_pos hself] at h ⊢
    cases h
    exact ⟨rfl, hknown⟩
  · rw [if_neg hself] at h ⊢
    obtain ⟨payer, hpayer, h⟩ := ok_bind_iff.1 h
    obtain ⟨payee, hpayee, h⟩ := ok_bind_iff.1 h
    cases h
    rw [partyFor_eq_ok] at hpayer hpayee
    constructor
    · have hkey : venue.pairKey (trade.buyer, trade.seller) = legKey payer payee := by
        simp only [pairKey, hpayer, hpayee, Option.getD_some]
      have himage : venue.net ((trade.buyer, trade.seller), trade.notional) =
          (legKey payer payee, ⟨payer, payee, trade.notional⟩) := by
        simp only [net, pairKey, hpayer, hpayee, Option.getD_some]
      -- Two legs share a key only if they are between the same accounts.
      have hf : ∀ leg ∈ accountLegs trades, venue.pairKey leg.1 = venue.pairKey (trade.buyer, trade.seller) →
          leg.1 = (trade.buyer, trade.seller) := by
        intro leg hleg heq
        obtain ⟨hbuyer, hseller⟩ := hknown leg hleg
        obtain ⟨payer', hpayer'⟩ := Option.isSome_iff_exists.1 hbuyer
        obtain ⟨payee', hpayee'⟩ := Option.isSome_iff_exists.1 hseller
        rw [hkey, pairKey, hpayer', hpayee', Option.getD_some, Option.getD_some] at heq
        obtain ⟨rfl, rfl⟩ := hkeys _ _ _ _ ⟨_, hpayer'⟩ ⟨_, hpayee'⟩ ⟨_, hpayer⟩ ⟨_, hpayee⟩ heq
        exact Prod.ext (hown _ _ _ hpayer' hpayer) (hown _ _ _ hpayee' hpayee)
      have hadd := amendOrAdd_map Prod.fst
        (fun entry => (entry.1, { entry.2 with amount := entry.2.amount + trade.notional })) venue.net venue.pairKey
        ((trade.buyer, trade.seller), trade.notional) (fun _ => rfl) (fun _ => rfl) hf
      rw [← hadd, addNet_eq, hkey, himage]
    · intro leg hleg
      have hmem : leg.1 ∈ (tallied (accountLegs trades) ((trade.buyer, trade.seller), trade.notional)).map Prod.fst :=
        List.mem_map_of_mem hleg
      rcases mem_keys_tallied.1 hmem with hold | hnew
      · obtain ⟨leg', hleg', heq⟩ := List.mem_map.1 hold
        rw [← heq]
        exact hknown leg' hleg'
      · rw [hnew, hpayer, hpayee]
        exact ⟨rfl, rfl⟩

theorem addTrades_net (hown : venue.OwnParties) (hkeys : venue.KeysTell) (h : trades.foldlM venue.addTrade [] = .ok netted) :
    netted = (accountLegs trades).map venue.net ∧ venue.Known (accountLegs trades) := by
  induction trades using List.reverseRecOn generalizing netted with
  | nil =>
    cases h
    exact ⟨rfl, fun _ h => absurd h List.not_mem_nil⟩
  | append_singleton trades trade ih =>
    rw [List.foldlM_append] at h
    obtain ⟨before, hbefore, h⟩ := ok_bind_iff.1 h
    obtain ⟨rfl, hknown⟩ := ih hbefore
    rw [List.foldlM_cons] at h
    obtain ⟨after, hafter, h⟩ := ok_bind_iff.1 h
    cases h
    exact addTrade_net hown hkeys hknown hafter

/-- The legs of a batch are those between its accounts, with their parties. -/
theorem buildLegs_eq (hown : venue.OwnParties) (hkeys : venue.KeysTell) {manifest : Manifest} {legs : List PartyLeg}
    {parties : List String} (h : venue.buildLegs manifest = .ok (legs, parties)) :
    (legs.map fun leg => (some leg.payer, some leg.payee, leg.amount)) =
      (accountLegs manifest.trades).map fun leg => (venue.party leg.1.1, venue.party leg.1.2, toString leg.2) := by
  rw [buildLegs] at h
  obtain ⟨netted, hnetted, h⟩ := ok_bind_iff.1 h
  obtain ⟨rfl, hknown⟩ := addTrades_net hown hkeys hnetted
  dsimp only at h
  split at h
  · cases h
  · cases h
    rw [List.map_map, List.map_map]
    refine List.map_congr_left fun leg hleg => ?_
    obtain ⟨hbuyer, hseller⟩ := hknown leg hleg
    obtain ⟨payer, hpayer⟩ := Option.isSome_iff_exists.1 hbuyer
    obtain ⟨payee, hpayee⟩ := Option.isSome_iff_exists.1 hseller
    simp only [Function.comp, net, hpayer, hpayee, Option.getD_some]

end CantonVenue

/-! ## Solana -/

namespace SolanaVenue
variable {venue : SolanaVenue} {build build' : LegBuilder} {accounts : List AccountId} {account : AccountId}
  {legs : List ((AccountId × AccountId) × Int)} {trades : List ManifestTrade} {trade : ManifestTrade}

/-- The collateral address of an account. -/
def address (venue : SolanaVenue) (account : AccountId) : Option PublicKey :=
  (venue.owners.find? fun entry => entry.1 = account).map fun entry => venue.collateralAddress entry.2

/-- The variables of the loop after the accounts came in this order, with these legs between them. -/
structure Builds (venue : SolanaVenue) (build : LegBuilder) (accounts : List AccountId)
    (legs : List ((AccountId × AccountId) × Int)) : Prop where
  nodup : accounts.Nodup
  indexes : build.indexes = accounts.zipIdx
  collateral : build.collateral.map some = accounts.map venue.address
  known : ∀ leg ∈ legs, leg.1.1 ∈ accounts ∧ leg.1.2 ∈ accounts
  netted : build.netted = legs.map fun leg => ⟨accounts.idxOf leg.1.1, accounts.idxOf leg.1.2, leg.2⟩

theorem find?_zipIdx (accounts : List AccountId) (account : AccountId) (n : Nat) :
    (accounts.zipIdx n).find? (fun entry => entry.1 = account) =
      if account ∈ accounts then some (account, n + accounts.idxOf account) else none := by
  induction accounts generalizing n with
  | nil => rfl
  | cons first accounts ih =>
    rw [List.zipIdx_cons, List.find?_cons, List.idxOf_cons]
    by_cases hfirst : first = account
    · subst hfirst
      simp
    · simp only [hfirst, decide_false, ih, List.mem_cons, Ne.symm hfirst, false_or, cond_false,
        beq_eq_false_iff_ne.2 hfirst, Nat.add_assoc, Nat.add_comm 1]

/-- An account gets its place: the one it has, or the next one. -/
theorem Builds.indexOf (h : venue.Builds build accounts legs) {place : Nat}
    (hindex : venue.indexOf build account = .ok (place, build')) :
    ∃ accounts', venue.Builds build' accounts' legs ∧ account ∈ accounts' ∧ place = accounts'.idxOf account ∧
      accounts <+: accounts' := by
  rw [SolanaVenue.indexOf, h.indexes, find?_zipIdx] at hindex
  by_cases hmem : account ∈ accounts
  · rw [if_pos hmem] at hindex
    cases hindex
    exact ⟨accounts, h, hmem, Nat.zero_add _, List.prefix_rfl⟩
  · rw [if_neg hmem] at hindex
    dsimp only at hindex
    split at hindex
    · cases hindex
    · rename_i entry howner
      cases hindex
      have hlength : build.collateral.length = accounts.length := by
        have := congrArg List.length h.collateral
        rwa [List.length_map, List.length_map] at this
      refine ⟨accounts ++ [account], ⟨?_, ?_, ?_, ?_, ?_⟩, by simp, ?_, List.prefix_append _ _⟩
      · exact List.nodup_append.2 ⟨h.nodup, List.nodup_singleton _,
          fun a ha b hb hab => hmem (by rwa [← List.mem_singleton.1 hb, ← hab])⟩
      · rw [List.zipIdx_append, hlength]
        simp
      · rw [List.map_append, List.map_append, h.collateral, List.map_singleton, List.map_singleton, address, howner]
        rfl
      · intro leg hleg
        obtain ⟨hbuyer, hseller⟩ := h.known leg hleg
        exact ⟨List.mem_append_left _ hbuyer, List.mem_append_left _ hseller⟩
      · rw [h.netted]
        refine List.map_congr_left fun leg hleg => ?_
        obtain ⟨hbuyer, hseller⟩ := h.known leg hleg
        rw [List.idxOf_append_of_mem hbuyer, List.idxOf_append_of_mem hseller]
      · rw [List.idxOf_append_of_notMem hmem, hlength]
        simp

theorem addLeg_eq (netted : List NettedLeg) (payer payee : Nat) (amount : Int) :
    addLeg netted payer payee amount =
      amendOrAdd (fun leg => (leg.payer, leg.payee)) (payer, payee) (fun leg => { leg with amount := leg.amount + amount })
        ⟨payer, payee, amount⟩ netted := by
  rw [addLeg, amendOrAdd]
  by_cases h : (payer, payee) ∈ netted.map fun leg => (leg.payer, leg.payee)
  · rw [if_pos h, if_pos]
    · simp only [amend, Prod.mk.injEq]
    · obtain ⟨leg, hleg, heq⟩ := List.mem_map.1 h
      exact List.any_eq_true.2 ⟨leg, hleg, decide_eq_true (Prod.mk.inj heq)⟩
  · rw [if_neg h, if_neg]
    intro hany
    obtain ⟨leg, hleg, heq⟩ := List.any_eq_true.1 hany
    obtain ⟨hpayer, hpayee⟩ := of_decide_eq_true heq
    exact h (List.mem_map.2 ⟨leg, hleg, by rw [hpayer, hpayee]⟩)

theorem addTrade_eq_ok (h : venue.addTrade build trade = .ok build') :
    (trade.buyer = trade.seller ∧ build' = build) ∨
    (trade.buyer ≠ trade.seller ∧ ∃ payer build₁ payee build₂, venue.indexOf build trade.buyer = .ok (payer, build₁) ∧
      venue.indexOf build₁ trade.seller = .ok (payee, build₂) ∧
      build' = { build₂ with netted := addLeg build₂.netted payer payee trade.notional }) := by
  rw [addTrade] at h
  dsimp only at h
  split at h
  · cases h
  · change (if trade.buyer = trade.seller then _ else _) = _ at h
    by_cases hself : trade.buyer = trade.seller
    · rw [if_pos hself] at h
      cases h
      exact .inl ⟨hself, rfl⟩
    · rw [if_neg hself] at h
      obtain ⟨⟨payer, build₁⟩, hpayer, h⟩ := ok_bind_iff.1 h
      obtain ⟨⟨payee, build₂⟩, hpayee, h⟩ := ok_bind_iff.1 h
      cases h
      exact .inr ⟨hself, payer, build₁, payee, build₂, hpayer, hpayee, rfl⟩

/-- One trade takes the table along with the legs between accounts. -/
theorem Builds.addTrade (h : venue.Builds build accounts (accountLegs trades)) (hadd : venue.addTrade build trade = .ok build') :
    ∃ accounts', venue.Builds build' accounts' (accountLegs (trades ++ [trade])) := by
  rw [accountLegs_concat]
  obtain ⟨hself, rfl⟩ | ⟨hself, payer, build₁, payee, build₂, hpayer, hpayee, rfl⟩ := addTrade_eq_ok hadd
  · rw [if_pos hself]
    exact ⟨accounts, h⟩
  · rw [if_neg hself]
    obtain ⟨accounts₁, h₁, hbuyer, rfl, hfirst⟩ := h.indexOf hpayer
    obtain ⟨accounts₂, h₂, hseller, rfl, hgrown⟩ := h₁.indexOf hpayee
    have hbuyer₂ := hgrown.subset hbuyer
    have hplace : accounts₁.idxOf trade.buyer = accounts₂.idxOf trade.buyer := by
      obtain ⟨rest, rfl⟩ := hgrown
      rw [List.idxOf_append_of_mem hbuyer]
    refine ⟨accounts₂, h₂.nodup, h₂.indexes, h₂.collateral, ?_, ?_⟩
    · intro leg hleg
      rcases mem_keys_tallied.1 (List.mem_map_of_mem hleg) with hold | hnew
      · obtain ⟨leg', hleg', heq⟩ := List.mem_map.1 hold
        rw [← heq]
        exact h₂.known leg' hleg'
      · rw [hnew]
        exact ⟨hbuyer₂, hseller⟩
    · -- Two legs share their places only if they are between the same accounts.
      have hf : ∀ leg ∈ accountLegs trades, (accounts₂.idxOf leg.1.1, accounts₂.idxOf leg.1.2) =
          (accounts₂.idxOf trade.buyer, accounts₂.idxOf trade.seller) → leg.1 = (trade.buyer, trade.seller) := by
        intro leg hleg heq
        obtain ⟨hpayer', hpayee'⟩ := Prod.mk.inj heq
        obtain ⟨hmem, hmem'⟩ := h₂.known leg hleg
        exact Prod.ext (List.idxOf_inj hmem |>.1 hpayer') (List.idxOf_inj hmem' |>.1 hpayee')
      have hadded := amendOrAdd_map (fun leg => (leg.payer, leg.payee))
        (fun leg => { leg with amount := leg.amount + trade.notional })
        (fun leg => (⟨accounts₂.idxOf leg.1.1, accounts₂.idxOf leg.1.2, leg.2⟩ : NettedLeg))
        (fun pair => (accounts₂.idxOf pair.1, accounts₂.idxOf pair.2)) ((trade.buyer, trade.seller), trade.notional)
        (fun _ => rfl) (fun _ => rfl) hf
      rw [← hadded, ← h₂.netted, hplace, addLeg_eq]

theorem builds_trades (h : trades.foldlM venue.addTrade ⟨[], [], []⟩ = .ok build) :
    ∃ accounts, venue.Builds build accounts (accountLegs trades) := by
  induction trades using List.reverseRecOn generalizing build with
  | nil =>
    cases h
    exact ⟨[], List.nodup_nil, rfl, rfl, fun _ h => absurd h List.not_mem_nil, rfl⟩
  | append_singleton trades trade ih =>
    rw [List.foldlM_append] at h
    obtain ⟨before, hbefore, h⟩ := ok_bind_iff.1 h
    obtain ⟨accounts, hbuilds⟩ := ih hbefore
    rw [List.foldlM_cons] at h
    obtain ⟨after, hafter, h⟩ := ok_bind_iff.1 h
    cases h
    exact hbuilds.addTrade hafter

/-- The legs of a batch are those between its accounts, at the places of their collateral addresses. -/
theorem buildLegs_eq {manifest : Manifest} {legs : List NettedLeg} {collateral : List PublicKey}
    (h : venue.buildLegs manifest = .ok (legs, collateral)) :
    ∃ accounts : List AccountId, accounts.Nodup ∧ collateral.map some = accounts.map venue.address ∧
      (legs.map fun leg => (accounts[leg.payer]?, accounts[leg.payee]?, leg.amount)) =
        (accountLegs manifest.trades).map fun leg => (some leg.1.1, some leg.1.2, leg.2) := by
  rw [buildLegs] at h
  obtain ⟨build, hbuild, h⟩ := ok_bind_iff.1 h
  obtain ⟨accounts, hbuilds⟩ := builds_trades hbuild
  dsimp only at h
  split at h
  · cases h
  split at h
  · cases h
  split at h
  · cases h
  cases h
  refine ⟨accounts, hbuilds.nodup, hbuilds.collateral, ?_⟩
  rw [hbuilds.netted, List.map_map]
  refine List.map_congr_left fun leg hleg => ?_
  obtain ⟨hbuyer, hseller⟩ := hbuilds.known leg hleg
  simp only [Function.comp, List.getElem?_idxOf hbuyer, List.getElem?_idxOf hseller]

end SolanaVenue

/-! ## Both venues -/

/-- The legs that either venue makes of a batch move for every account what its trades do, with one leg from a payer to
a payee and none to the payer itself, and are the same for both, in the same order. On Canton no two accounts may
share a party, nor two legs their key. -/
theorem venues_build_the_same_legs (manifest : Manifest) :
    Nets manifest.trades (accountLegs manifest.trades) ∧
    (∀ (solana : SolanaVenue) legs collateral, solana.buildLegs manifest = .ok (legs, collateral) →
      ∃ accounts : List AccountId, accounts.Nodup ∧ collateral.map some = accounts.map solana.address ∧
        (legs.map fun leg => (accounts[leg.payer]?, accounts[leg.payee]?, leg.amount)) =
          (accountLegs manifest.trades).map fun leg => (some leg.1.1, some leg.1.2, leg.2)) ∧
    ∀ canton : CantonVenue, canton.OwnParties → canton.KeysTell →
      ∀ legs parties, canton.buildLegs manifest = .ok (legs, parties) →
        (legs.map fun leg => (some leg.payer, some leg.payee, leg.amount)) =
          (accountLegs manifest.trades).map fun leg => (canton.party leg.1.1, canton.party leg.1.2, toString leg.2) :=
  ⟨nets_accountLegs manifest.trades, fun _ _ _ h => SolanaVenue.buildLegs_eq h,
    fun _ hown hkeys _ _ h => CantonVenue.buildLegs_eq hown hkeys h⟩

theorem CantonVenue.ownParties_of_nodup {venue : CantonVenue} (h : (venue.parties.map Prod.snd).Nodup) : venue.OwnParties := by
  intro account account' party hparty hparty'
  obtain ⟨entry, hentry, rfl⟩ := Option.map_eq_some_iff.1 hparty
  obtain ⟨entry', hentry', heq⟩ := Option.map_eq_some_iff.1 hparty'
  have hsame := List.inj_on_of_nodup_map h (List.mem_of_find?_eq_some hentry') (List.mem_of_find?_eq_some hentry) heq
  have haccount : entry.1 = account := of_decide_eq_true (List.find?_some hentry :)
  have haccount' : entry'.1 = account' := of_decide_eq_true (List.find?_some hentry' :)
  rw [← haccount, ← haccount', hsame]

/-- Account 1 buys from account 2 twice, sells to it once, and trades with itself. -/
def smallBatch : Manifest where
  venue := "canton"
  settlementId := "stl_1"
  firstTradeId := 1
  lastTradeId := 4
  trades := [⟨1, 0, 2, 1, .Buy, 100, 5⟩, ⟨2, 0, 1, 2, .Buy, 7, 1⟩, ⟨3, 0, 1, 1, .Buy, 9, 9⟩, ⟨4, 0, 1, 2, .Sell, 10, 2⟩]

def smallSolana : SolanaVenue :=
  { ownerlessSolana with owners := [(1, .replicate 32 1), (2, .replicate 32 2)] }

theorem venues_build_the_same_legs_small :
    ∃ legs collateral legs' parties, smallSolana.buildLegs smallBatch = .ok (legs, collateral) ∧
      CantonVenue.smallCanton.buildLegs smallBatch = .ok (legs', parties) ∧
      (legs'.map fun leg => (some leg.payer, some leg.payee, leg.amount)) =
        ((accountLegs smallBatch.trades).map fun leg =>
          (CantonVenue.smallCanton.party leg.1.1, CantonVenue.smallCanton.party leg.1.2, toString leg.2)) ∧
      accountLegs smallBatch.trades = [((1, 2), 520), ((2, 1), 7)] := by
  have hown : CantonVenue.smallCanton.OwnParties := CantonVenue.ownParties_of_nodup (by decide)
  have hkeys : CantonVenue.smallCanton.KeysTell := by
    refine CantonVenue.keysTell_of_no_bar fun account party h => ?_
    obtain ⟨entry, hentry, rfl⟩ := Option.map_eq_some_iff.1 h
    have hall : ∀ entry ∈ CantonVenue.smallCanton.parties, '|' ∉ entry.2.toList := by decide
    exact hall entry (List.mem_of_find?_eq_some hentry)
  have hcanton : CantonVenue.smallCanton.buildLegs smallBatch =
      .ok ([⟨"alice", "bob", "520"⟩, ⟨"bob", "alice", "7"⟩], ["alice", "bob"]) := by decide +kernel
  have hsolana : smallSolana.buildLegs smallBatch =
      .ok ([⟨0, 1, 520⟩, ⟨1, 0, 7⟩], [.replicate 32 1, .replicate 32 2]) := by decide +kernel
  exact ⟨_, _, _, _, hsolana, hcanton, (venues_build_the_same_legs smallBatch).2.2 _ hown hkeys _ _ hcanton, by decide +kernel⟩

/-- Four parties, with a bar in the names of two. -/
def barredCanton : CantonVenue := ⟨"operator", [(1, "a|b"), (2, "c"), (3, "a"), (4, "b|c")], "pkg"⟩

/-- Account 1 buys from account 2, and account 3 from account 4. -/
def barredBatch : Manifest :=
  ⟨"canton", "stl_1", 1, 2, [⟨1, 0, 2, 1, .Buy, 100, 5⟩, ⟨2, 0, 4, 3, .Buy, 7, 1⟩]⟩

/-- The two pairs of parties have one key: the second trade is paid by the payer of the first, and account 3 pays
nothing. -/
theorem legs_of_other_parties_merge :
    barredCanton.OwnParties ∧
    barredCanton.buildLegs barredBatch = .ok ([⟨"a|b", "c", "507"⟩], ["a|b", "c"]) ∧
    barredCanton.party 3 = some "a" ∧
    (barredBatch.trades.map fun trade => if trade.buyer = 3 then trade.notional else 0).sum = 7 :=
  ⟨CantonVenue.ownParties_of_nodup (by decide), by decide +kernel, by decide, by decide⟩

end TradingLab
