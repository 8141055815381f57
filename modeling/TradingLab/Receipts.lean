import TradingLab.CantonVenue
/-!
# Receipts and failures

A settlement whose identity has a receipt at its venue has an economic effect, and is not
to fail. Which states of the three venues let it fail all the same.
-/
open LabLib

namespace TradingLab

section Receipts
variable {sha256 : String → String} {s : Office} {row : SettlementRow} {left : List SettlementRow} {nowMs : Nat} {id : String}

/-- The simulated venue turns away a batch whose identity it has a receipt for: it has the
receipt of another manifest, or it turns away whatever is sent. -/
def SimulatedVenue.refuses (venue : SimulatedVenue) (row : SettlementRow) : Bool :=
  !venue.faults.unavailable &&
    ((venue.get row.settlement_id).any (fun existing => existing.manifestHash ≠ row.manifest_hash) ||
      (venue.faults.reject && row.status = .pending))

/-- Solana turns it away: its legs cannot be made again, the receipt that is read has other
legs, or what is thrown on sending sounds like a refusal. -/
def SolanaVenue.refuses (venue : SolanaVenue) (row : SettlementRow) (manifest : Manifest) : Bool :=
  match venue.legsHash manifest with
  | .error _ => true
  | .ok expected =>
    let differs := venue.readError.isNone &&
      (venue.account row.settlement_id).any fun data => SolanaVenue.storedHash data ≠ expected
    match venue.sendError with
    | some text =>
      if row.status = .pending && !SolanaVenue.inUse text then !SolanaVenue.transient text && SolanaVenue.refused text
      else differs
    | none => differs

/-- Canton turns it away: the query throws what sounds like a refusal; or there is a receipt, and the legs cannot be
made again, or those of the receipt are not what the receipt says of them, or not those of the batch. -/
def CantonVenue.refuses (venue : CantonVenue) (api : LedgerApi) (manifest : Manifest) : Bool :=
  match api.queryError, api.receipts manifest.settlementId with
  | some text, _ => !CantonVenue.unclear text && CantonVenue.refused text
  | none, [] => false
  | none, receipt :: _ =>
    match venue.buildLegs manifest with
    | .error _ => true
    | .ok (legs, _) =>
      let recorded := CantonVenue.canonicalEconomics manifest.settlementId receipt.legs
      receipt.legCount ≠ toString receipt.legs.length || recorded ≠ receipt.economics ||
        recorded ≠ CantonVenue.canonicalEconomics manifest.settlementId legs

/-- The venues of the dispatcher, each in some state. -/
inductive Venue where
  | simulated (venue : SimulatedVenue)
  | solana (venue : SolanaVenue)
  | canton (venue : CantonVenue) (api : LedgerApi)

namespace Venue

def adapter (sha256 : String → String) : Venue → Adapter
  | simulated venue => venue.adapter sha256
  | solana venue => venue.adapter
  | canton venue api => venue.adapter api

/-- The venue has a receipt under the identity. -/
def holds (settlementId : String) : Venue → Bool
  | simulated venue => (venue.get settlementId).isSome
  | solana venue => (venue.account settlementId).isSome
  | canton _ api => api.receipts settlementId ≠ []

def refuses (row : SettlementRow) (manifest : Manifest) : Venue → Bool
  | simulated venue => venue.refuses row
  | solana venue => venue.refuses row manifest
  | canton venue api => venue.refuses api manifest

end Venue

/-- The dispatcher takes up these settlements only. -/
def SettlementStatus.due (status : SettlementStatus) : Bool := status = .pending ∨ status = .submitted ∨ status = .unknown

end Receipts

end TradingLab
