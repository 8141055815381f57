import TradingLab.Lib.Machine
import TradingLab.Lib.Keyed
import TradingLab.Lib.Guards
import TradingLab.Lib.System
/-!
# The Canton workflow

`Settlement.daml`: holdings of parties at an operator, instructions that the involved
parties accept, and the settlement of an instruction, which moves the holdings leg by leg
and leaves a receipt.

A contract with a key is found by it, and no two active contracts have the same key.
A choice runs with the authority of its controllers and of the contract's signatories.
A submission that fails changes nothing.
-/
open LabLib

namespace TradingLab.Canton

structure Party where
  partyToText : String
deriving DecidableEq

structure Holding where
  operator : Party
  owner : Party
  amount : Int64
deriving DecidableEq

def Holding.key (holding : Holding) : Party × Party := (holding.operator, holding.owner)

/-- One obligation inside a batch: payer owes payee an amount. -/
structure Leg where
  payer : Party
  payee : Party
  amount : Int64
deriving DecidableEq

def encodeLeg (leg : Leg) : String :=
  leg.payer.partyToText ++ ">" ++ leg.payee.partyToText ++ ":" ++ toString (val leg.amount)

/-- The settlement id, the leg count, then every leg in order. -/
def canonicalEconomics (settlementId : String) (legs : List Leg) : String :=
  "|".intercalate (settlementId :: toString legs.length :: legs.map encodeLeg)

def involvedParties (legs : List Leg) : List Party := (legs.flatMap fun leg => [leg.payer, leg.payee]).eraseDups

structure SettlementReceipt where
  operator : Party
  settlementId : String
  legs : List Leg
  legCount : Int
  economics : String
  parties : List Party
deriving DecidableEq

def SettlementReceipt.key (receipt : SettlementReceipt) : Party × String := (receipt.operator, receipt.settlementId)

structure SettlementInstruction where
  operator : Party
  settlementId : String
  legs : List Leg
  accepted : List Party
deriving DecidableEq

def SettlementInstruction.signatories (instruction : SettlementInstruction) : List Party :=
  instruction.operator :: instruction.accepted

/-- Why a transaction is refused. -/
inductive Failure where
  | assertMsg (message : String)
  /-- The `ensure` of a template does not hold. -/
  | ensure
  | duplicateKey
  | contractNotFound
  | arithmetic
  | authorization
deriving DecidableEq

/-- The active contracts. An instruction has no key, and is known by its contract id. -/
structure Ledger where
  holdings : List Holding
  instructions : List (Nat × SettlementInstruction)
  receipts : List SettlementReceipt
  nextId : Nat

namespace Ledger

def empty : Ledger := ⟨[], [], [], 0⟩

def fetchHolding (ledger : Ledger) (key : Party × Party) : Option Holding :=
  ledger.holdings.find? fun holding => holding.key = key

def fetchInstruction (ledger : Ledger) (id : Nat) : Option SettlementInstruction :=
  (ledger.instructions.find? fun entry => entry.1 = id).map Prod.snd

/-! ## Creating contracts -/

def createHolding (ledger : Ledger) (authorizers : List Party) (holding : Holding) : Except Failure Ledger := do
  require (holding.operator ∈ authorizers) .authorization
  require (0 ≤ holding.amount) .ensure
  require (ledger.fetchHolding holding.key = none) .duplicateKey
  return { ledger with holdings := ledger.holdings ++ [holding] }

def createInstruction (ledger : Ledger) (authorizers : List Party) (instruction : SettlementInstruction) :
    Except Failure Ledger := do
  require (∀ party ∈ instruction.signatories, party ∈ authorizers) .authorization
  require (instruction.legs ≠ []) .ensure
  return { ledger with
    instructions := ledger.instructions ++ [(ledger.nextId, instruction)]
    nextId := ledger.nextId + 1 }

def createReceipt (ledger : Ledger) (authorizers : List Party) (receipt : SettlementReceipt) : Except Failure Ledger := do
  require (receipt.operator ∈ authorizers) .authorization
  require (receipt.key ∉ ledger.receipts.map SettlementReceipt.key) .duplicateKey
  return { ledger with receipts := ledger.receipts ++ [receipt] }

/-! ## Choices of a holding -/

/-- Both choices consume the holding, and create it again with another amount. -/
def archiveHolding (ledger : Ledger) (holding : Holding) : Ledger :=
  { ledger with holdings := without Holding.key holding.key ledger.holdings }

def credit (ledger : Ledger) (authorizers : List Party) (key : Party × Party) (delta : Int64) : Except Failure Ledger := do
  let holding ← ok_or (ledger.fetchHolding key) .contractNotFound
  require (holding.operator ∈ authorizers) .authorization
  require (0 < delta) (.assertMsg "credit must be positive")
  let amount ← ok_or (checked_add holding.amount delta) .arithmetic
  (ledger.archiveHolding holding).createHolding [holding.operator] { holding with amount := amount }

def debit (ledger : Ledger) (authorizers : List Party) (key : Party × Party) (delta : Int64) : Except Failure Ledger := do
  let holding ← ok_or (ledger.fetchHolding key) .contractNotFound
  require (holding.operator ∈ authorizers ∧ holding.owner ∈ authorizers) .authorization
  require (0 < delta) (.assertMsg "debit must be positive")
  require (delta ≤ holding.amount) (.assertMsg "insufficient holding")
  let amount ← ok_or (checked_sub holding.amount delta) .arithmetic
  (ledger.archiveHolding holding).createHolding [holding.operator, holding.owner] { holding with amount := amount }

/-! ## Choices of an instruction -/

/-- A consuming choice starts with the contract, and goes on without it. -/
def consumeInstruction (ledger : Ledger) (id : Nat) : Except Failure (SettlementInstruction × Ledger) := do
  let instruction ← ok_or (ledger.fetchInstruction id) .contractNotFound
  return (instruction, { ledger with instructions := without Prod.fst id ledger.instructions })

def accept (ledger : Ledger) (actAs : List Party) (id : Nat) (party : Party) : Except Failure Ledger := do
  let (instruction, ledger) ← ledger.consumeInstruction id
  require (party ∈ actAs) .authorization
  require (party ∈ involvedParties instruction.legs) (.assertMsg "party is not part of this settlement")
  require (party ∉ instruction.accepted) (.assertMsg "party already accepted")
  ledger.createInstruction (party :: instruction.signatories) { instruction with accepted := party :: instruction.accepted }

def settleLeg (operator : Party) (authorizers : List Party) (ledger : Ledger) (leg : Leg) : Except Failure Ledger := do
  require (0 < leg.amount) (.assertMsg "leg amount must be positive")
  require (leg.payer ≠ leg.payee) (.assertMsg "a leg cannot pay itself")
  let ledger ← ledger.debit authorizers (operator, leg.payer) leg.amount
  ledger.credit authorizers (operator, leg.payee) leg.amount

def settle (ledger : Ledger) (actAs : List Party) (id : Nat) (expectedLegs : List Leg) (expectedLegCount : Int) :
    Except Failure Ledger := do
  let (instruction, ledger) ← ledger.consumeInstruction id
  require (instruction.operator ∈ actAs) .authorization
  let parties := involvedParties instruction.legs
  let economics := canonicalEconomics instruction.settlementId instruction.legs
  require (∀ party ∈ parties, party ∈ instruction.accepted) (.assertMsg "every involved party must accept first")
  require (expectedLegCount = instruction.legs.length) (.assertMsg "leg count does not match the instruction")
  require (canonicalEconomics instruction.settlementId expectedLegs = economics)
    (.assertMsg "settled economics do not match the instruction")
  let ledger ← instruction.legs.foldlM (settleLeg instruction.operator instruction.signatories) ledger
  ledger.createReceipt instruction.signatories {
    operator := instruction.operator
    settlementId := instruction.settlementId
    legs := instruction.legs
    legCount := instruction.legs.length
    economics := economics
    parties := parties }

def withdraw (ledger : Ledger) (actAs : List Party) (id : Nat) : Except Failure Ledger := do
  let (instruction, ledger) ← ledger.consumeInstruction id
  require (instruction.operator ∈ actAs) .authorization
  return ledger

end Ledger

/-! ## Submissions -/

inductive Command where
  | createHolding (holding : Holding)
  | createInstruction (instruction : SettlementInstruction)
  | createReceipt (receipt : SettlementReceipt)
  | credit (key : Party × Party) (delta : Int64)
  | debit (key : Party × Party) (delta : Int64)
  | accept (id : Nat) (party : Party)
  | settle (id : Nat) (expectedLegs : List Leg) (expectedLegCount : Int)
  | withdraw (id : Nat)

structure Submission where
  actAs : List Party
  command : Command

def Ledger.submit (ledger : Ledger) (actAs : List Party) : Command → Except Failure Ledger
  | .createHolding holding => ledger.createHolding actAs holding
  | .createInstruction instruction => ledger.createInstruction actAs instruction
  | .createReceipt receipt => ledger.createReceipt actAs receipt
  | .credit key delta => ledger.credit actAs key delta
  | .debit key delta => ledger.debit actAs key delta
  | .accept id party => ledger.accept actAs id party
  | .settle id expectedLegs expectedLegCount => ledger.settle actAs id expectedLegs expectedLegCount
  | .withdraw id => ledger.withdraw actAs id

/-- The ledger, and the identities that were settled so far. -/
structure History where
  ledger : Ledger
  settled : List (Party × String)

/-- The identity that a command settles. -/
def Ledger.identity (ledger : Ledger) : Command → List (Party × String)
  | .settle id _ _ =>
    ((ledger.fetchInstruction id).map fun instruction => (instruction.operator, instruction.settlementId)).toList
  | _ => []

def History.step (history : History) (submission : Submission) : Option History :=
  match history.ledger.submit submission.actAs submission.command with
  | .ok ledger => some {
      ledger := ledger
      settled := history.settled ++ history.ledger.identity submission.command }
  | .error _ => some history

/-! ## Holdings -/

section Holdings
variable {ledger ledger' ledger'' : Ledger} {authorizers : List Party} {key : Party × Party} {delta : Int64}

namespace Ledger

/-- What an owner has at an operator. -/
def amount (ledger : Ledger) (key : Party × Party) : Option Int :=
  (ledger.fetchHolding key).map fun holding => val holding.amount

/-- What all owners have at an operator. -/
def total (ledger : Ledger) (operator : Party) : Int :=
  (ledger.holdings.map fun holding => if holding.operator = operator then val holding.amount else 0).sum

structure Valid (ledger : Ledger) : Prop where
  keys : (ledger.holdings.map Holding.key).Nodup
  nonneg : ∀ holding ∈ ledger.holdings, 0 ≤ val holding.amount

theorem fetchHolding_eq_some {holding : Holding} (h : ledger.fetchHolding key = some holding) :
    holding ∈ ledger.holdings ∧ holding.key = key :=
  ⟨List.mem_of_find?_eq_some h, by simpa using List.find?_some h⟩

theorem notMem_keys_of_fetchHolding (h : ledger.fetchHolding key = none) : key ∉ ledger.holdings.map Holding.key := by
  intro hmem
  obtain ⟨holding, hholding, rfl⟩ := List.mem_map.1 hmem
  have hfind := List.find?_eq_none.1 h holding hholding
  simp at hfind

theorem createHolding_eq_ok {holding : Holding} (h : ledger.createHolding authorizers holding = .ok ledger') :
    0 ≤ val holding.amount ∧ ledger.fetchHolding holding.key = none ∧
      ledger' = { ledger with holdings := ledger.holdings ++ [holding] } := by
  simp only [createHolding, require_bind, i64_le, i64_val_zero] at h
  obtain ⟨-, hamount, hnone, h⟩ := h
  cases h
  exact ⟨hamount, hnone, rfl⟩

theorem Valid.createHolding {holding : Holding} (hvalid : ledger.Valid)
    (h : ledger.createHolding authorizers holding = .ok ledger') : ledger'.Valid := by
  obtain ⟨hamount, hnone, rfl⟩ := createHolding_eq_ok h
  constructor
  · rw [List.map_append, List.map_singleton, ← List.concat_eq_append]
    exact hvalid.keys.concat (notMem_keys_of_fetchHolding hnone)
  · intro other hmem
    obtain hmem | hmem := List.mem_append.1 hmem
    · exact hvalid.nonneg other hmem
    · rw [List.mem_singleton.1 hmem]
      exact hamount

/-- One holding changes. -/
structure Changes (ledger ledger' : Ledger) (key : Party × Party) (delta : Int) : Prop where
  valid : ledger'.Valid
  found : (ledger.amount key).isSome
  amount : ∀ other, ledger'.amount other = (ledger.amount other).map fun amount => amount + if other = key then delta else 0
  total : ∀ operator, ledger'.total operator = ledger.total operator + if key.1 = operator then delta else 0
  receipts : ledger'.receipts = ledger.receipts

/-- The holding is consumed, and created again with the new amount. -/
theorem Valid.replace {holding : Holding} {amount : Int64} (hvalid : ledger.Valid)
    (hfetch : ledger.fetchHolding key = some holding)
    (h : (ledger.archiveHolding holding).createHolding authorizers { holding with amount := amount } = .ok ledger') :
    ledger.Changes ledger' key (val amount - val holding.amount) := by
  obtain ⟨hmem, rfl⟩ := fetchHolding_eq_some hfetch
  have harchived : (ledger.archiveHolding holding).Valid := by
    constructor
    · exact hvalid.keys.sublist ((without_sublist _ _).map _)
    · intro other hother
      exact hvalid.nonneg other (mem_without.1 hother).1
  have hvalid' := harchived.createHolding h
  obtain ⟨-, -, rfl⟩ := createHolding_eq_ok h
  refine ⟨hvalid', by rw [Ledger.amount, hfetch]; rfl, fun other => ?_, fun operator => ?_, rfl⟩
  · simp only [Ledger.amount, fetchHolding, archiveHolding, List.find?_append, find?_without]
    by_cases hother : other = holding.key
    · subst hother
      rw [fetchHolding] at hfetch
      rw [if_pos rfl, hfetch]
      simp [Holding.key]
    · have hne : Holding.key { holding with amount := amount } ≠ other := fun heq => hother heq.symm
      rw [if_neg hother, List.find?_singleton, if_neg (by simpa using hne), Option.or_none, Option.map_map]
      simp [Function.comp_def, hother]
  · rw [Ledger.total, List.map_append, List.sum_append, archiveHolding, sum_without hvalid.keys hmem]
    simp only [Ledger.total, List.map_singleton, List.sum_singleton, Holding.key]
    by_cases hoperator : holding.operator = operator
    · simp only [hoperator, if_true]
      omega
    · simp only [hoperator, if_false]
      omega

theorem Valid.credit (hvalid : ledger.Valid) (h : ledger.credit authorizers key delta = .ok ledger') :
    ledger.Changes ledger' key (val delta) := by
  simp only [Ledger.credit, ok_or_bind, require_bind, checked_add_eq_some] at h
  obtain ⟨holding, hfetch, -, -, amount, hamount, h⟩ := h
  have hchanges := hvalid.replace hfetch h
  rwa [show val amount - val holding.amount = val delta by omega] at hchanges

theorem Valid.debit (hvalid : ledger.Valid) (h : ledger.debit authorizers key delta = .ok ledger') :
    ledger.Changes ledger' key (-val delta) := by
  simp only [Ledger.debit, ok_or_bind, require_bind, checked_sub_eq_some] at h
  obtain ⟨holding, hfetch, -, -, -, amount, hamount, h⟩ := h
  have hchanges := hvalid.replace hfetch h
  rwa [show val amount - val holding.amount = -val delta by omega] at hchanges

end Ledger

end Holdings

/-! ## Legs -/

section Legs
variable {ledger ledger' ledger'' : Ledger} {operator : Party} {authorizers : List Party} {leg : Leg} {legs : List Leg}
  {change change' : Party → Int}

/-- What a leg pays to a party. -/
def Leg.received (party : Party) (leg : Leg) : Int := if leg.payee = party then val leg.amount else 0

/-- What a party pays for a leg. -/
def Leg.paid (party : Party) (leg : Leg) : Int := if leg.payer = party then val leg.amount else 0

namespace Ledger

/-- Amounts change hands among the holdings at an operator. -/
structure Moves (ledger ledger' : Ledger) (operator : Party) (change : Party → Int) : Prop where
  valid : ledger'.Valid
  amount : ∀ owner, ledger'.amount (operator, owner) = (ledger.amount (operator, owner)).map fun amount => amount + change owner
  others : ∀ other owner, other ≠ operator → ledger'.amount (other, owner) = ledger.amount (other, owner)
  total : ∀ other, ledger'.total other = ledger.total other
  receipts : ledger'.receipts = ledger.receipts

theorem Moves.refl (hvalid : ledger.Valid) : ledger.Moves ledger operator fun _ => 0 := by
  refine ⟨hvalid, fun owner => ?_, fun _ _ _ => rfl, fun _ => rfl, rfl⟩
  cases ledger.amount (operator, owner) <;> simp

theorem Moves.trans (h : ledger.Moves ledger' operator change) (h' : ledger'.Moves ledger'' operator change') :
    ledger.Moves ledger'' operator fun owner => change owner + change' owner where
  valid := h'.valid
  amount owner := by
    rw [h'.amount, h.amount, Option.map_map]
    congr 1
    funext amount
    simp only [Function.comp]
    omega
  others other owner hne := (h'.others other owner hne).trans (h.others other owner hne)
  total other := (h'.total other).trans (h.total other)
  receipts := h'.receipts.trans h.receipts

/-- The payer's holding is debited first, and the payee's is read after that. -/
theorem Valid.settleLeg (hvalid : ledger.Valid) (h : settleLeg operator authorizers ledger leg = .ok ledger') :
    ledger.Moves ledger' operator (fun owner => leg.received owner - leg.paid owner) ∧
      (ledger.amount (operator, leg.payer)).isSome ∧ (ledger.amount (operator, leg.payee)).isSome := by
  simp only [Ledger.settleLeg, require_bind] at h
  obtain ⟨middle, hdebit, hcredit⟩ := ok_bind_iff.1 h.2.2
  have hdebit := hvalid.debit hdebit
  have hcredit := hdebit.valid.credit hcredit
  have hpayee := hcredit.found
  rw [hdebit.amount, Option.isSome_map] at hpayee
  refine ⟨⟨hcredit.valid, fun owner => ?_, fun other owner hne => ?_, fun other => ?_, ?_⟩, hdebit.found, hpayee⟩
  · rw [hcredit.amount, hdebit.amount, Option.map_map]
    congr 1
    funext amount
    simp only [Function.comp, Leg.received, Leg.paid, Prod.mk.injEq, true_and, eq_comm]
    split <;> split <;> omega
  · rw [hcredit.amount, hdebit.amount, Option.map_map]
    have hsame : (fun amount : Int => amount + if (other, owner) = (operator, leg.payee) then val leg.amount else 0) ∘
        (fun amount : Int => amount + if (other, owner) = (operator, leg.payer) then -val leg.amount else 0) = id := by
      funext amount
      simp [hne]
    rw [hsame, Option.map_id, id]
  · rw [hcredit.total, hdebit.total]
    split <;> omega
  · rw [hcredit.receipts, hdebit.receipts]

theorem Valid.settleLegs (hvalid : ledger.Valid) (h : legs.foldlM (Ledger.settleLeg operator authorizers) ledger = .ok ledger') :
    ledger.Moves ledger' operator (fun owner => (legs.map (Leg.received owner)).sum - (legs.map (Leg.paid owner)).sum) ∧
      ∀ leg ∈ legs, (ledger.amount (operator, leg.payer)).isSome ∧ (ledger.amount (operator, leg.payee)).isSome := by
  induction legs generalizing ledger with
  | nil =>
    cases h
    exact ⟨.refl hvalid, nofun⟩
  | cons leg legs ih =>
    rw [List.foldlM_cons] at h
    obtain ⟨middle, hleg, h⟩ := ok_bind_iff.1 h
    obtain ⟨hmoves, hpayer, hpayee⟩ := hvalid.settleLeg hleg
    obtain ⟨hmoves', hfound⟩ := ih hmoves.valid h
    constructor
    · have hall := hmoves.trans hmoves'
      refine ⟨hall.valid, fun owner => ?_, hall.others, hall.total, hall.receipts⟩
      rw [hall.amount]
      congr 1
      funext amount
      rw [List.map_cons, List.map_cons, List.sum_cons, List.sum_cons]
      omega
    · intro other hmem
      obtain rfl | hmem := List.mem_cons.1 hmem
      · exact ⟨hpayer, hpayee⟩
      · have hother := hfound other hmem
        rwa [hmoves.amount, hmoves.amount, Option.isSome_map, Option.isSome_map] at hother

end Ledger

end Legs

/-! ## Runs -/

section Runs
variable {ledger ledger' : Ledger} {actAs : List Party} {id : Nat} {instruction : SettlementInstruction}

namespace Ledger

theorem consumeInstruction_eq_ok (h : ledger.consumeInstruction id = .ok (instruction, ledger')) :
    ledger.fetchInstruction id = some instruction ∧
      ledger' = { ledger with instructions := without Prod.fst id ledger.instructions } := by
  simp only [consumeInstruction, ok_or_bind] at h
  obtain ⟨found, hfetch, h⟩ := h
  cases h
  exact ⟨hfetch, rfl⟩

theorem createReceipt_eq_ok {authorizers : List Party} {receipt : SettlementReceipt}
    (h : ledger.createReceipt authorizers receipt = .ok ledger') :
    receipt.key ∉ ledger.receipts.map SettlementReceipt.key ∧
      ledger' = { ledger with receipts := ledger.receipts ++ [receipt] } := by
  simp only [createReceipt, require_bind] at h
  obtain ⟨-, hnew, h⟩ := h
  cases h
  exact ⟨hnew, rfl⟩

theorem createInstruction_eq_ok {authorizers : List Party} (h : ledger.createInstruction authorizers instruction = .ok ledger') :
    ledger'.holdings = ledger.holdings ∧ ledger'.receipts = ledger.receipts := by
  simp only [createInstruction, require_bind] at h
  obtain ⟨-, -, h⟩ := h
  cases h
  exact ⟨rfl, rfl⟩

/-- What a settlement has done: the legs of the instruction, and its receipt. -/
theorem Valid.settle {expectedLegs : List Leg} {expectedLegCount : Int} (hvalid : ledger.Valid)
    (h : ledger.settle actAs id expectedLegs expectedLegCount = .ok ledger') :
    ∃ instruction settled, ledger.fetchInstruction id = some instruction ∧
      ledger.Moves settled instruction.operator
        (fun owner => (instruction.legs.map (Leg.received owner)).sum - (instruction.legs.map (Leg.paid owner)).sum) ∧
      (∀ leg ∈ instruction.legs, (ledger.amount (instruction.operator, leg.payer)).isSome ∧
        (ledger.amount (instruction.operator, leg.payee)).isSome) ∧
      (instruction.operator, instruction.settlementId) ∉ ledger.receipts.map SettlementReceipt.key ∧
      ledger' = { settled with
        receipts := ledger.receipts ++ [{
          operator := instruction.operator
          settlementId := instruction.settlementId
          legs := instruction.legs
          legCount := instruction.legs.length
          economics := canonicalEconomics instruction.settlementId instruction.legs
          parties := involvedParties instruction.legs }] } := by
  obtain ⟨⟨instruction, consumed⟩, hconsume, h⟩ := ok_bind_iff.1 h
  simp only [require_bind] at h
  obtain ⟨settled, hlegs, hreceipt⟩ := ok_bind_iff.1 h.2.2.2.2
  obtain ⟨hfetch, rfl⟩ := consumeInstruction_eq_ok hconsume
  obtain ⟨hnew, rfl⟩ := createReceipt_eq_ok hreceipt
  have hconsumed : Valid { ledger with instructions := without Prod.fst id ledger.instructions } :=
    ⟨hvalid.keys, hvalid.nonneg⟩
  obtain ⟨hmoves, hfound⟩ := hconsumed.settleLegs hlegs
  rw [hmoves.receipts] at hnew ⊢
  exact ⟨instruction, settled, hfetch, ⟨hmoves.valid, hmoves.amount, hmoves.others, hmoves.total, hmoves.receipts⟩,
    hfound, hnew, rfl⟩

/-- Every command keeps the holdings valid and all receipts. -/
theorem Valid.submit {command : Command} (hvalid : ledger.Valid) (h : ledger.submit actAs command = .ok ledger') :
    ledger'.Valid ∧ ledger.receipts ⊆ ledger'.receipts := by
  cases command with
  | createHolding holding =>
    have hvalid' := hvalid.createHolding h
    obtain ⟨-, -, rfl⟩ := createHolding_eq_ok h
    exact ⟨hvalid', List.Subset.refl _⟩
  | createInstruction instruction =>
    obtain ⟨hholdings, hreceipts⟩ := createInstruction_eq_ok h
    exact ⟨⟨hholdings ▸ hvalid.keys, hholdings ▸ hvalid.nonneg⟩, hreceipts ▸ List.Subset.refl _⟩
  | createReceipt receipt =>
    obtain ⟨-, rfl⟩ := createReceipt_eq_ok h
    exact ⟨⟨hvalid.keys, hvalid.nonneg⟩, List.subset_append_left _ _⟩
  | credit key delta =>
    have hchanges := hvalid.credit h
    exact ⟨hchanges.valid, hchanges.receipts ▸ List.Subset.refl _⟩
  | debit key delta =>
    have hchanges := hvalid.debit h
    exact ⟨hchanges.valid, hchanges.receipts ▸ List.Subset.refl _⟩
  | accept id party =>
    obtain ⟨⟨instruction, consumed⟩, hconsume, h⟩ := ok_bind_iff.1 h
    simp only [require_bind] at h
    obtain ⟨-, rfl⟩ := consumeInstruction_eq_ok hconsume
    obtain ⟨hholdings, hreceipts⟩ := createInstruction_eq_ok h.2.2.2
    exact ⟨⟨hholdings ▸ hvalid.keys, hholdings ▸ hvalid.nonneg⟩, hreceipts ▸ List.Subset.refl _⟩
  | settle id expectedLegs expectedLegCount =>
    obtain ⟨instruction, settled, -, hmoves, -, -, rfl⟩ := hvalid.settle h
    exact ⟨⟨hmoves.valid.keys, hmoves.valid.nonneg⟩, List.subset_append_left _ _⟩
  | withdraw id =>
    obtain ⟨⟨instruction, consumed⟩, hconsume, h⟩ := ok_bind_iff.1 h
    simp only [require_bind] at h
    obtain ⟨-, rfl⟩ := consumeInstruction_eq_ok hconsume
    cases h.2
    exact ⟨⟨hvalid.keys, hvalid.nonneg⟩, List.Subset.refl _⟩

/-- A settled identity has a receipt after that, and had none before. -/
theorem Valid.identity {command : Command} (hvalid : ledger.Valid) (h : ledger.submit actAs command = .ok ledger')
    {identity : Party × String} (hidentity : identity ∈ ledger.identity command) :
    identity ∉ ledger.receipts.map SettlementReceipt.key ∧ identity ∈ ledger'.receipts.map SettlementReceipt.key := by
  cases command with
  | settle id expectedLegs expectedLegCount =>
    obtain ⟨instruction, settled, hfetch, -, -, hnew, rfl⟩ := hvalid.settle h
    simp only [Ledger.identity, hfetch, Option.map_some, Option.toList_some, List.mem_singleton] at hidentity
    subst hidentity
    refine ⟨hnew, ?_⟩
    simp [SettlementReceipt.key]
  | _ => cases hidentity

end Ledger

/-- What every run keeps. -/
structure History.Sound (history : History) : Prop where
  valid : history.ledger.Valid
  receipts : history.settled ⊆ history.ledger.receipts.map SettlementReceipt.key
  once : history.settled.Nodup

theorem History.Sound.step {history history' : History} {submission : Submission} (h : history.Sound)
    (hstep : history.step submission = some history') : history'.Sound := by
  rw [History.step] at hstep
  split at hstep
  · rename_i ledger hsubmit
    cases hstep
    obtain ⟨hvalid, hreceipts⟩ := h.valid.submit hsubmit
    refine ⟨hvalid, ?_, List.nodup_append.2 ⟨h.once, ?_, ?_⟩⟩
    · refine List.append_subset.2 ⟨List.Subset.trans h.receipts (List.map_subset _ hreceipts), fun identity hmem => ?_⟩
      exact (h.valid.identity hsubmit hmem).2
    · cases submission.command with
      | settle id expectedLegs expectedLegCount =>
        simp only [Ledger.identity]
        cases history.ledger.fetchInstruction id <;> simp
      | _ => exact List.nodup_nil
    · rintro identity hmem _ hmem' rfl
      exact (h.valid.identity hsubmit hmem').1 (h.receipts hmem)
  · cases hstep
    exact h

/-- Whatever was submitted: no identity is settled twice, and a settlement of an instruction
changes each holding at its operator by the legs received less the legs paid, keeps their sum,
and writes the receipt of what was applied. A settlement that is refused changes no holding. -/
theorem settlements_move_their_legs {history : History}
    (hreach : Reach History.step (fun _ _ => True) { ledger := .empty, settled := [] } history) :
    history.settled.Nodup ∧
    (∀ actAs id expectedLegs expectedLegCount ledger',
      history.ledger.submit actAs (.settle id expectedLegs expectedLegCount) = .ok ledger' →
      ∃ instruction, history.ledger.fetchInstruction id = some instruction ∧
        (∀ owner, ledger'.amount (instruction.operator, owner) =
          (history.ledger.amount (instruction.operator, owner)).map fun amount => amount +
            ((instruction.legs.map (Leg.received owner)).sum - (instruction.legs.map (Leg.paid owner)).sum)) ∧
        (∀ leg ∈ instruction.legs, (history.ledger.amount (instruction.operator, leg.payer)).isSome ∧
          (history.ledger.amount (instruction.operator, leg.payee)).isSome) ∧
        (∀ operator owner, operator ≠ instruction.operator →
          ledger'.amount (operator, owner) = history.ledger.amount (operator, owner)) ∧
        ledger'.total instruction.operator = history.ledger.total instruction.operator ∧
        (∀ holding ∈ ledger'.holdings, 0 ≤ val holding.amount) ∧
        ledger'.receipts = history.ledger.receipts ++ [{
          operator := instruction.operator
          settlementId := instruction.settlementId
          legs := instruction.legs
          legCount := instruction.legs.length
          economics := canonicalEconomics instruction.settlementId instruction.legs
          parties := involvedParties instruction.legs }]) ∧
    (∀ actAs id expectedLegs expectedLegCount failure history',
      history.ledger.submit actAs (.settle id expectedLegs expectedLegCount) = .error failure →
      history.step ⟨actAs, .settle id expectedLegs expectedLegCount⟩ = some history' →
      history'.ledger.holdings = history.ledger.holdings) := by
  have hsound : history.Sound := by
    refine hreach.inv History.Sound ⟨⟨List.nodup_nil, nofun⟩, nofun, List.nodup_nil⟩ ?_
    intro _ _ _ h _ hstep
    exact h.step hstep
  refine ⟨hsound.once, ?_, ?_⟩
  · intro actAs id expectedLegs expectedLegCount ledger' h
    obtain ⟨instruction, settled, hfetch, hmoves, hfound, -, rfl⟩ := hsound.valid.settle h
    exact ⟨instruction, hfetch, hmoves.amount, hfound, hmoves.others, hmoves.total _, hmoves.valid.nonneg, rfl⟩
  · intro actAs id expectedLegs expectedLegCount failure history' h hstep
    rw [History.step, h] at hstep
    cases hstep
    rfl

/-- Two parties settle two legs, one in each direction. -/
def testSubmissions : List Submission :=
  let operator : Party := ⟨"operator"⟩
  let alice : Party := ⟨"alice"⟩
  let bob : Party := ⟨"bob"⟩
  let legs : List Leg := [⟨alice, bob, 300⟩, ⟨bob, alice, 100⟩]
  [⟨[operator], .createHolding ⟨operator, alice, 1000⟩⟩,
    ⟨[operator], .createHolding ⟨operator, bob, 1000⟩⟩,
    ⟨[operator], .createInstruction ⟨operator, "stl_5", legs, []⟩⟩,
    ⟨[alice], .accept 0 alice⟩,
    ⟨[bob], .accept 1 bob⟩,
    ⟨[operator], .settle 2 legs 2⟩,
    ⟨[operator], .createInstruction ⟨operator, "stl_5", legs, []⟩⟩,
    ⟨[alice], .accept 3 alice⟩,
    ⟨[bob], .accept 4 bob⟩,
    ⟨[operator], .settle 5 legs 2⟩]

theorem settlements_move_their_legs_small :
    ∃ history ∈ walk History.step (fun _ _ => True) { ledger := .empty, settled := [] } testSubmissions,
      history.ledger.amount (⟨"operator"⟩, ⟨"alice"⟩) = some 800 ∧
      history.settled = [(⟨"operator"⟩, "stl_5")] ∧ history.settled.Nodup := by
  have hwalk : ∃ history ∈ walk History.step (fun _ _ => True) { ledger := .empty, settled := [] } testSubmissions,
      history.ledger.amount (⟨"operator"⟩, ⟨"alice"⟩) = some 800 ∧ history.settled = [(⟨"operator"⟩, "stl_5")] := by
    decide +kernel
  obtain ⟨history, hhistory, hamount, hsettled⟩ := hwalk
  exact ⟨history, hhistory, hamount, hsettled, (settlements_move_their_legs (reach_of_walk hhistory)).1⟩

end Runs

end TradingLab.Canton
