import TradingLab.Venues
/-!
# The Canton venue

`CantonVenue` of `canton.ts`: the legs of a batch between parties, and the commands that
take them through the Daml workflow. A command may take effect or not, and the client may
see an error either way; what it makes of the error is read off its text.
-/
open LabLib

namespace TradingLab

/-- A leg as the JSON API has it, with its amount in decimal. -/
structure PartyLeg where
  payer : String
  payee : String
  amount : String
deriving DecidableEq

structure ReceiptRecord where
  contractId : String
  legs : List PartyLeg
  legCount : String
  economics : String
deriving DecidableEq

/-- A leg while the batch is netted. -/
structure PartyNet where
  payer : String
  payee : String
  amount : Int
deriving DecidableEq

structure CantonVenue where
  operator : String
  parties : List (AccountId × String)
  packageId : String

/-! ## The ledger -/

inductive CantonRequest where
  | create (templateId operator settlementId : String) (legs : List PartyLeg)
  | accept (templateId contractId party : String)
  | settle (templateId contractId : String) (expectedLegs : List PartyLeg) (expectedLegCount actAs : String)
  | withdraw (templateId contractId actAs : String)
deriving DecidableEq

def CantonRequest.isSettle : CantonRequest → Bool
  | settle .. => true
  | _ => false

/-- What becomes of a command. -/
inductive Served where
  | answered (result : String)
  /-- It takes effect, and the client sees an error. -/
  | lost (text : String)
  | refused (text : String)
deriving DecidableEq

namespace Served

def tookEffect : Served → Bool
  | answered _ | lost _ => true
  | refused _ => false

def reply : Served → Except String String
  | answered result => .ok result
  | lost text | refused text => .error text

end Served

/-- The ledger behind the JSON API, as a call of `submit` finds it. -/
structure LedgerApi where
  /-- The receipts that it holds of a settlement. -/
  receipts : String → List ReceiptRecord
  /-- What the query for them throws. -/
  queryError : Option String
  /-- What becomes of a command behind those sent before. -/
  serve : List CantonRequest → CantonRequest → Served

/-- The commands sent so far. -/
abbrev Sent := List (CantonRequest × Served)

def LedgerApi.post (api : LedgerApi) (sent : Sent) (request : CantonRequest) : Except String String × Sent :=
  let served := api.serve (sent.map Prod.fst) request
  (served.reply, sent ++ [(request, served)])

namespace CantonVenue

/-! ## Legs -/

/-- It is an encoding, and no hash. -/
def canonicalEconomics (settlementId : String) (legs : List PartyLeg) : String :=
  let encoded := legs.map fun leg => leg.payer ++ ">" ++ leg.payee ++ ":" ++ leg.amount
  "|".intercalate (settlementId :: toString legs.length :: encoded)

def party (venue : CantonVenue) (account : AccountId) : Option String :=
  (venue.parties.find? fun entry => entry.1 = account).map Prod.snd

def partyFor (venue : CantonVenue) (account : AccountId) : Except String String :=
  match venue.party account with
  | none => .error ("no Canton party configured for account " ++ toString account)
  | some party => .ok party

/-- The key of a leg while the batch is netted. -/
def legKey (payer payee : String) : String := payer ++ "|" ++ payee

/-- Legs with the same key become one. -/
def addNet (netted : List (String × PartyNet)) (payer payee : String) (amount : Int) : List (String × PartyNet) :=
  let key := legKey payer payee
  if netted.any fun entry => entry.1 = key then
    netted.map fun entry => if entry.1 = key then (entry.1, { entry.2 with amount := entry.2.amount + amount }) else entry
  else netted ++ [(key, ⟨payer, payee, amount⟩)]

def addTrade (venue : CantonVenue) (netted : List (String × PartyNet)) (trade : ManifestTrade) :
    Except String (List (String × PartyNet)) := do
  let amount := val trade.priceTicks * val trade.quantityLots
  let buyer := if trade.aggressor = .Buy then trade.takerAccount else trade.makerAccount
  let seller := if trade.aggressor = .Buy then trade.makerAccount else trade.takerAccount
  if buyer = seller then return netted
  let payer ← venue.partyFor buyer
  let payee ← venue.partyFor seller
  return addNet netted payer payee amount

/-- The amounts are text all along, and are parsed to be added to; here they become text at the end. -/
def buildLegs (venue : CantonVenue) (manifest : Manifest) : Except String (List PartyLeg × List String) := do
  let netted ← manifest.trades.foldlM venue.addTrade []
  let legs := netted.map fun entry => (⟨entry.2.payer, entry.2.payee, toString entry.2.amount⟩ : PartyLeg)
  if legs = [] then throw "batch nets to no transfers"
  return (legs, (legs.flatMap fun leg => [leg.payer, leg.payee]).eraseDups)

/-! ## Errors -/

/-- The connection failed, or the receipt exists: the batch may be applied. -/
def unclear (text : String) : Bool :=
  ["fetch failed", "econnrefused", "timed out", "abort", "502", "503", "504", "duplicate", "already exists",
    "uniquekeyviolation"].any (SolanaVenue.mentions text.toLower)

def refused (text : String) : Bool :=
  ["insufficient", "must accept", "not part of this settlement", "positive", "pay itself", "do not match",
    "does not match"].any (SolanaVenue.mentions text.toLower)

def classify (text : String) (fallback : String → SubmitOutcome) : SubmitOutcome :=
  if unclear text then .unknown text
  else if refused text then .rejected text
  else fallback text

/-! ## Calls -/

def templateId (venue : CantonVenue) (entity : String) : String := venue.packageId ++ ":Settlement:" ++ entity

def lookup (venue : CantonVenue) (api : LedgerApi) (settlementId : String) (manifest : Option Manifest) : SubmitOutcome :=
  match api.queryError with
  | some text => classify text .unknown
  | none =>
    match api.receipts settlementId with
    | [] => .notFound
    | receipt :: _ =>
      match manifest with
      | none => .unknown "reconciliation needs the manifest to compare economics"
      | some manifest =>
        match venue.buildLegs manifest with
        | .error text => .rejected text
        | .ok (legs, _) =>
          let expected := canonicalEconomics settlementId legs
          let recorded := canonicalEconomics settlementId receipt.legs
          if receipt.legCount ≠ toString receipt.legs.length ∨ recorded ≠ receipt.economics then
            .rejected "ledger receipt economics do not match its own legs"
          else if recorded ≠ expected then .rejected "ledger receipt settled different economics"
          else .alreadyApplied receipt.contractId

/-- Every party accepts, each on the instruction that the one before it left. -/
def acceptAll (venue : CantonVenue) (api : LedgerApi) : List String → String → Sent → String × Option String × Sent
  | [], instruction, sent => (instruction, none, sent)
  | party :: parties, instruction, sent =>
    match api.post sent (.accept (venue.templateId "SettlementInstruction") instruction party) with
    | (.error text, sent) => (instruction, some text, sent)
    | (.ok accepted, sent) => venue.acceptAll api parties accepted sent

/-- A batch that counts as refused leaves an instruction to clean up. Whether that succeeds is not looked at. -/
def giveUp (venue : CantonVenue) (api : LedgerApi) (text instruction : String) (sent : Sent) : SubmitOutcome × Sent :=
  let outcome := classify text .rejected
  if outcome.isRejected then
    (outcome, (api.post sent (.withdraw (venue.templateId "SettlementInstruction") instruction venue.operator)).2)
  else (outcome, sent)

/-- The commands of a batch whose legs are there. -/
def settleLegs (venue : CantonVenue) (api : LedgerApi) (settlementId : String) (legs : List PartyLeg) (parties : List String) :
    SubmitOutcome × Sent :=
  match api.post [] (.create (venue.templateId "SettlementInstruction") venue.operator settlementId legs) with
  | (.error text, sent) => (classify text .rejected, sent)
  | (.ok instruction, sent) =>
    match venue.acceptAll api parties instruction sent with
    | (instruction, some text, sent) => venue.giveUp api text instruction sent
    | (instruction, none, sent) =>
      match api.post sent (.settle (venue.templateId "SettlementInstruction") instruction legs (toString legs.length)
        venue.operator) with
      | (.error text, sent) => venue.giveUp api text instruction sent
      | (.ok receipt, sent) => (.confirmed receipt, sent)

def submit (venue : CantonVenue) (api : LedgerApi) (manifest : Manifest) : SubmitOutcome × Sent :=
  match venue.lookup api manifest.settlementId (some manifest) with
  | .notFound =>
    match venue.buildLegs manifest with
    | .error text => (.rejected text, [])
    | .ok (legs, parties) => venue.settleLegs api manifest.settlementId legs parties
  | existing => (existing, [])

def adapter (venue : CantonVenue) (api : LedgerApi) : Adapter where
  submit manifest _ := (venue.submit api manifest).1
  lookup settlementId _ manifest := venue.lookup api settlementId (some manifest)

/-! ## What an outcome says about the ledger -/

variable {venue : CantonVenue} {api : LedgerApi} {manifest : Manifest} {sent : Sent}

/-- The ledger has committed `Settle` for the settlement, before or in the course of these commands. -/
def Settled (api : LedgerApi) (settlementId : String) (sent : Sent) : Prop :=
  api.receipts settlementId ≠ [] ∨ ∃ entry ∈ sent, entry.1.isSettle = true ∧ entry.2.tookEffect = true

/-- The query does not fail with a text that sounds like a refusal, and a receipt that it finds is consistent and of
the legs of this manifest. -/
def Recognises (venue : CantonVenue) (api : LedgerApi) (manifest : Manifest) : Prop :=
  match api.queryError with
  | some text => unclear text = true ∨ refused text = false
  | none =>
    match api.receipts manifest.settlementId with
    | [] => True
    | receipt :: _ => ∃ legs parties, venue.buildLegs manifest = .ok (legs, parties) ∧
        receipt.legCount = toString receipt.legs.length ∧
        canonicalEconomics manifest.settlementId receipt.legs = receipt.economics ∧
        canonicalEconomics manifest.settlementId receipt.legs = canonicalEconomics manifest.settlementId legs

/-- What `lookup` can answer. -/
theorem lookup_cases (venue : CantonVenue) (api : LedgerApi) (manifest : Manifest) :
    let outcome := venue.lookup api manifest.settlementId (some manifest)
    (outcome = .notFound ∧ api.receipts manifest.settlementId = [] ∧ venue.Recognises api manifest) ∨
    ((∃ reason, outcome = .unknown reason) ∧ venue.Recognises api manifest) ∨
    ((∃ receipt, outcome = .alreadyApplied receipt) ∧ api.receipts manifest.settlementId ≠ [] ∧
      venue.Recognises api manifest) ∨
    ((∃ reason, outcome = .rejected reason) ∧ ¬venue.Recognises api manifest) := by
  dsimp only
  rw [lookup, Recognises]
  cases api.queryError with
  | some text =>
    dsimp only
    rw [classify]
    cases hunclear : unclear text with
    | true => exact .inr (.inl ⟨⟨_, rfl⟩, .inl rfl⟩)
    | false =>
      cases hrefused : refused text with
      | true => exact .inr (.inr (.inr ⟨⟨_, rfl⟩, by simp⟩))
      | false => exact .inr (.inl ⟨⟨_, rfl⟩, .inr rfl⟩)
  | none =>
    cases api.receipts manifest.settlementId with
    | nil => exact .inl ⟨rfl, rfl, trivial⟩
    | cons receipt receipts =>
      dsimp only
      cases venue.buildLegs manifest with
      | error text => exact .inr (.inr (.inr ⟨⟨_, rfl⟩, by rintro ⟨legs, parties, hlegs, -⟩; cases hlegs⟩))
      | ok built =>
        obtain ⟨legs, parties⟩ := built
        dsimp only
        split
        · rename_i hown
          refine .inr (.inr (.inr ⟨⟨_, rfl⟩, ?_⟩))
          rintro ⟨legs', parties', -, hcount, heconomics, -⟩
          rcases hown with hown | hown
          · exact hown hcount
          · exact hown heconomics
        · rename_i hown
          rw [not_or, not_not, not_not] at hown
          split
          · rename_i hother
            refine .inr (.inr (.inr ⟨⟨_, rfl⟩, ?_⟩))
            rintro ⟨legs', parties', hlegs, -, -, hsame⟩
            cases hlegs
            exact hother hsame
          · rename_i hsame
            exact .inr (.inr (.inl ⟨⟨_, rfl⟩, List.cons_ne_nil _ _, legs, parties, rfl, hown.1, hown.2, not_not.1 hsame⟩))

/-- No command among these settles. -/
def NoSettle (sent : Sent) : Prop := ∀ entry ∈ sent, entry.1.isSettle = false

theorem NoSettle.post (h : NoSettle sent) {request : CantonRequest} (hrequest : request.isSettle = false) :
    NoSettle (api.post sent request).2 := by
  intro entry hentry
  rcases List.mem_append.1 hentry with hentry | hentry
  · exact h entry hentry
  · rw [List.mem_singleton.1 hentry]
    exact hrequest

theorem NoSettle.acceptAll (h : NoSettle sent) (parties : List String) (instruction : String) :
    NoSettle (venue.acceptAll api parties instruction sent).2.2 := by
  induction parties generalizing instruction sent with
  | nil => exact h
  | cons party parties ih =>
    have hpost : NoSettle (api.post sent (.accept (venue.templateId "SettlementInstruction") instruction party)).2 := h.post rfl
    rw [CantonVenue.acceptAll]
    split
    · rename_i heq
      rw [heq] at hpost
      exact hpost
    · rename_i heq
      rw [heq] at hpost
      exact ih hpost _

/-- What `giveUp` leaves behind is the commands before it, and perhaps a withdrawal. -/
theorem giveUp_eq (venue : CantonVenue) (api : LedgerApi) (text instruction : String) (sent : Sent) :
    ∃ back, NoSettle back ∧ venue.giveUp api text instruction sent = (classify text .rejected, sent ++ back) := by
  rw [giveUp]
  split
  · refine ⟨_, ?_, rfl⟩
    intro entry hentry
    rw [List.mem_singleton.1 hentry]
    rfl
  · exact ⟨[], fun _ h => absurd h List.not_mem_nil, by rw [List.append_nil]⟩

/-- How the commands of a batch end: an error before `Settle`, an error of `Settle`, or its answer. -/
theorem settleLegs_cases (venue : CantonVenue) (api : LedgerApi) (id : String) (legs : List PartyLeg) (parties : List String) :
    (∃ text sent, venue.settleLegs api id legs parties = (classify text .rejected, sent) ∧ NoSettle sent) ∨
    (∃ front back request served text, NoSettle front ∧ NoSettle back ∧ request.isSettle = true ∧
      served.reply = .error text ∧
      venue.settleLegs api id legs parties = (classify text .rejected, front ++ (request, served) :: back)) ∨
    ∃ front request receipt, NoSettle front ∧ request.isSettle = true ∧
      venue.settleLegs api id legs parties = (.confirmed receipt, front ++ [(request, .answered receipt)]) := by
  have hcreate : NoSettle (api.post [] (.create (venue.templateId "SettlementInstruction") venue.operator id legs)).2 :=
    NoSettle.post (fun _ h => absurd h List.not_mem_nil) rfl
  rw [settleLegs]
  split
  · rename_i text sent heq
    rw [heq] at hcreate
    exact .inl ⟨text, sent, rfl, hcreate⟩
  · rename_i instruction sent heq
    rw [heq] at hcreate
    have haccepted : NoSettle (venue.acceptAll api parties instruction sent).2.2 := hcreate.acceptAll parties instruction
    split
    · rename_i text sent heq
      rw [heq] at haccepted
      obtain ⟨back, hback, hgive⟩ := giveUp_eq venue api text _ sent
      refine .inl ⟨text, _, hgive, fun entry hentry => ?_⟩
      rcases List.mem_append.1 hentry with hentry | hentry
      · exact haccepted entry hentry
      · exact hback entry hentry
    · rename_i instruction' sent heq
      rw [heq] at haccepted
      cases hserved : api.serve (sent.map Prod.fst) (.settle (venue.templateId "SettlementInstruction") instruction' legs
        (toString legs.length) venue.operator) with
      | answered receipt =>
        simp only [LedgerApi.post, hserved, Served.reply]
        exact .inr (.inr ⟨sent, _, receipt, haccepted, rfl, rfl⟩)
      | lost text =>
        simp only [LedgerApi.post, hserved, Served.reply]
        obtain ⟨back, hback, hgive⟩ := giveUp_eq venue api text instruction' (sent ++ [(_, .lost text)])
        exact .inr (.inl ⟨sent, back, _, _, text, haccepted, hback, rfl, rfl, by rw [hgive, List.append_assoc]; rfl⟩)
      | refused text =>
        simp only [LedgerApi.post, hserved, Served.reply]
        obtain ⟨back, hback, hgive⟩ := giveUp_eq venue api text instruction' (sent ++ [(_, .refused text)])
        exact .inr (.inl ⟨sent, back, _, _, text, haccepted, hback, rfl, rfl, by rw [hgive, List.append_assoc]; rfl⟩)

/-- What `classify` makes of an error of `submit`. -/
theorem classify_rejected (text : String) :
    classify text .rejected = if unclear text then .unknown text else .rejected text := by
  rw [classify]
  split
  · rfl
  · split <;> rfl

/-- The only `Settle` among these commands is the one in the middle. -/
theorem settle_mem {front back : Sent} {request request' : CantonRequest} {served served' : Served} (hfront : NoSettle front)
    (hback : NoSettle back) (hmem : (request', served') ∈ front ++ (request, served) :: back)
    (hsettle : request'.isSettle = true) : served' = served := by
  rcases List.mem_append.1 hmem with h | h
  · rw [hfront _ h] at hsettle
    cases hsettle
  · rcases List.mem_cons.1 h with h | h
    · cases h
      rfl
    · rw [hback _ h] at hsettle
      cases hsettle

theorem settled_iff {id : String} {front back : Sent} {request : CantonRequest} {served : Served}
    (hreceipts : api.receipts id = []) (hfront : NoSettle front) (hback : NoSettle back) (hrequest : request.isSettle = true) :
    Settled api id (front ++ (request, served) :: back) ↔ served.tookEffect = true := by
  constructor
  · rintro (h | ⟨⟨request', served'⟩, hmem, hsettle, heffect⟩)
    · exact absurd hreceipts h
    · rwa [settle_mem hfront hback hmem hsettle] at heffect
  · intro heffect
    exact .inr ⟨(request, served), List.mem_append_right _ List.mem_cons_self, hrequest, heffect⟩

/-- The commands of a batch that has no receipt yet. -/
theorem settleLegs_sound_iff {id : String} (hreceipts : api.receipts id = []) (legs : List PartyLeg) (parties : List String) :
    ((venue.settleLegs api id legs parties).1.isRejected = true →
      ¬Settled api id (venue.settleLegs api id legs parties).2) ↔
    ∀ request text, (request, .lost text) ∈ (venue.settleLegs api id legs parties).2 → request.isSettle = true →
      unclear text = true := by
  rcases settleLegs_cases venue api id legs parties with ⟨text, sent, heq, hsent⟩ |
    ⟨front, back, request, served, text, hfront, hback, hrequest, hreply, heq⟩ |
    ⟨front, request, receipt, hfront, hrequest, heq⟩ <;> rw [heq]
  · constructor
    · intro _ request text hmem hsettle
      rw [hsent _ hmem] at hsettle
      cases hsettle
    · rintro - - (h | ⟨entry, hmem, hsettle, -⟩)
      · exact h hreceipts
      · rw [hsent _ hmem] at hsettle
        cases hsettle
  · dsimp only
    rw [settled_iff hreceipts hfront hback hrequest, classify_rejected]
    cases served with
    | answered result => cases hreply
    | refused text' =>
      refine ⟨fun _ request' text' hmem hsettle => ?_, fun _ _ h => by cases h⟩
      cases settle_mem hfront hback hmem hsettle
    | lost text' =>
      cases hreply
      cases hunclear : unclear text with
      | true =>
        refine ⟨fun _ request' text' hmem hsettle => ?_, fun _ h => by cases h⟩
        cases settle_mem hfront hback hmem hsettle
        exact hunclear
      | false =>
        refine ⟨fun h => absurd rfl (h rfl), fun h => ?_⟩
        rw [h request text (List.mem_append_right _ List.mem_cons_self) hrequest] at hunclear
        cases hunclear
  · have hback : NoSettle [] := fun _ h => absurd h List.not_mem_nil
    refine ⟨fun _ request' text' hmem hsettle => ?_, fun _ h => by cases h⟩
    cases settle_mem hfront hback hmem hsettle

theorem settleLegs_outcome {id : String} (hreceipts : api.receipts id = []) (legs : List PartyLeg) (parties : List String) :
    (venue.settleLegs api id legs parties).1.isRejected = true ∨
    (∃ reason, (venue.settleLegs api id legs parties).1 = .unknown reason) ∨
    ∃ receipt, (venue.settleLegs api id legs parties).1 = .confirmed receipt ∧
      Settled api id (venue.settleLegs api id legs parties).2 := by
  have hclassified : ∀ text, (classify text .rejected).isRejected = true ∨ ∃ reason, classify text .rejected = .unknown reason := by
    intro text
    rw [classify_rejected]
    cases unclear text with
    | true => exact .inr ⟨text, rfl⟩
    | false => exact .inl rfl
  rcases settleLegs_cases venue api id legs parties with ⟨text, sent, heq, -⟩ | ⟨front, back, request, served, text, -, -, -, -, heq⟩ |
    ⟨front, request, receipt, hfront, hrequest, heq⟩ <;> rw [heq]
  · exact (hclassified text).imp_right .inl
  · exact (hclassified text).imp_right .inl
  · exact .inr (.inr ⟨receipt, rfl,
      (settled_iff hreceipts hfront (fun _ h => absurd h List.not_mem_nil) hrequest).2 rfl⟩)

/-- An outcome `rejected` says that the ledger has not committed `Settle` just if a receipt that is there is recognised,
and an error of a `Settle` that took effect has a text that `classify` takes for unclear. Otherwise the outcome is
`unknown`, or a receipt. -/
theorem rejected_is_sound_iff (venue : CantonVenue) (api : LedgerApi) (manifest : Manifest) :
    (((venue.submit api manifest).1.isRejected = true → ¬Settled api manifest.settlementId (venue.submit api manifest).2) ↔
      (api.receipts manifest.settlementId ≠ [] → venue.Recognises api manifest) ∧
      ∀ request text, (request, .lost text) ∈ (venue.submit api manifest).2 → request.isSettle = true →
        unclear text = true) ∧
    ((venue.submit api manifest).1.isRejected = true ∨ (∃ reason, (venue.submit api manifest).1 = .unknown reason) ∨
      ∃ receipt, ((venue.submit api manifest).1 = .confirmed receipt ∨
        (venue.submit api manifest).1 = .alreadyApplied receipt) ∧
        Settled api manifest.settlementId (venue.submit api manifest).2) := by
  rcases lookup_cases venue api manifest with ⟨hlookup, hreceipts, hknown⟩ | ⟨⟨reason, hlookup⟩, hknown⟩ |
    ⟨⟨receipt, hlookup⟩, hreceipts, hknown⟩ | ⟨⟨reason, hlookup⟩, hknown⟩ <;> rw [submit, hlookup]
  · dsimp only
    cases venue.buildLegs manifest with
    | error text => exact ⟨by simp [Settled, hreceipts], .inl rfl⟩
    | ok built =>
      obtain ⟨legs, parties⟩ := built
      refine ⟨?_, (settleLegs_outcome hreceipts legs parties).imp_right fun h => h.imp_right ?_⟩
      · rw [settleLegs_sound_iff hreceipts, hreceipts]
        exact ⟨fun h => ⟨fun hne => absurd rfl hne, h⟩, fun h => h.2⟩
      · rintro ⟨receipt, hconfirmed, hsettled⟩
        exact ⟨receipt, .inl hconfirmed, hsettled⟩
  · exact ⟨⟨fun _ => ⟨fun _ => hknown, by simp⟩, fun _ h => by cases h⟩, .inr (.inl ⟨_, rfl⟩)⟩
  · exact ⟨⟨fun _ => ⟨fun _ => hknown, by simp⟩, fun _ h => by cases h⟩, .inr (.inr ⟨receipt, .inr rfl, .inl hreceipts⟩)⟩
  · refine ⟨⟨fun h => ⟨fun hreceipts => absurd (.inl hreceipts) (h rfl), by simp⟩, fun h _ => ?_⟩, .inl rfl⟩
    rintro (hreceipts | ⟨entry, hentry, -⟩)
    · exact hknown (h.1 hreceipts)
    · cases hentry

/-- Two accounts with a party each. -/
def smallCanton : CantonVenue := ⟨"operator", [(1, "alice"), (2, "bob")], "pkg"⟩

/-- Account 1 buys 5 at 100 from account 2. -/
def smallManifest : Manifest := ⟨"canton", "stl_1", 1, 1, [⟨1, 0, 1, 2, .Sell, 100, 5⟩]⟩

/-- Every command takes effect, and the answer to `Settle` is an error of the server. -/
def failingApi : LedgerApi where
  receipts _ := []
  queryError := none
  serve _ request := if request.isSettle then .lost "ledger returned HTTP 500" else .answered "c1"

theorem rejected_after_settle :
    (smallCanton.submit failingApi smallManifest).1 = .rejected "ledger returned HTTP 500" ∧
      Settled failingApi "stl_1" (smallCanton.submit failingApi smallManifest).2 := by
  refine ⟨by decide +kernel, .inr ?_⟩
  decide +kernel

end CantonVenue

end TradingLab
