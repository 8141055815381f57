import TradingLab.SolanaBatches
import TradingLab.Venues
/-!
# What the hash of a Solana batch stands for

The program and its client hash the legs of a batch each on their own. Both hash the
same bytes, and these tell the settlement, the exchange and the legs; so the legs that
the program applies are the ones that the client hashed.
-/
open LabLib

namespace TradingLab

open Solana (manifest_bytes)

/-- A leg between two keys. -/
abbrev KeyLeg (Key : Type) := Key × Key × UInt64

/-- The same legs as values of the client, where an amount is a `bigint`. -/
def clientLegs (legs : List (KeyLeg PublicKey)) : List (PublicKey × PublicKey × Int) :=
  legs.map fun leg => (leg.1, leg.2.1, leg.2.2.toNat)

/-! ## The preimage -/

theorem toList_append_inj {n : Nat} {v w : Vector UInt8 n} {rest rest' : List UInt8} :
    v.toList ++ rest = w.toList ++ rest' ↔ v = w ∧ rest = rest' := by
  constructor
  · intro h
    obtain ⟨hv, hrest⟩ := List.append_inj h (by rw [Vector.length_toList, Vector.length_toList])
    exact ⟨Vector.toList_inj.1 hv, hrest⟩
  · rintro ⟨rfl, rfl⟩
    rfl

theorem leg_delimited :
    Delimited fun leg : KeyLeg PublicKey => [leg.1.toList, leg.2.1.toList, to_le_bytes leg.2.2].flatten := by
  rintro ⟨payer, payee, amount⟩ ⟨payer', payee', amount'⟩ rest rest' h
  simp only [List.flatten_cons, List.flatten_nil, List.append_assoc, List.nil_append, toList_append_inj,
    to_le_bytes_append_inj] at h
  obtain ⟨rfl, rfl, rfl, hrest⟩ := h
  exact ⟨rfl, hrest⟩

theorem manifest_bytes_inj {id id' : Solana.SettlementId} {exchange exchange' : PublicKey}
    {legs legs' : List (KeyLeg PublicKey)}
    (h : manifest_bytes Vector.toList id exchange legs = manifest_bytes Vector.toList id' exchange' legs') :
    id = id' ∧ exchange = exchange' ∧ legs = legs' := by
  simp only [manifest_bytes, List.flatten_cons, List.flatten_nil, List.append_nil, List.append_cancel_left_eq,
    toList_append_inj, to_le_bytes_append_inj] at h
  obtain ⟨rfl, rfl, -, hlegs⟩ := h
  have hne : ∀ leg : KeyLeg PublicKey, [leg.1.toList, leg.2.1.toList, to_le_bytes leg.2.2].flatten ≠ [] := by
    intro leg hnil
    have hlength := congrArg List.length hnil
    simp at hlength
  refine ⟨rfl, rfl, leg_delimited.flatMap_injective hne ?_⟩
  simpa only [List.flatten_cons, List.flatten_nil, List.append_nil] using hlegs

theorem manifest_bytes_eq (id : Solana.SettlementId) (exchange : PublicKey) (legs : List (KeyLeg PublicKey)) :
    manifest_bytes Vector.toList id exchange legs =
      SolanaVenue.settlementManifestBytes id.toList exchange (clientLegs legs) := by
  rw [manifest_bytes, SolanaVenue.settlementManifestBytes, clientLegs, List.length_map, List.flatMap_map]
  simp only [Int.toNat_natCast, UInt64.ofNat_toNat]
  rfl

/-- The preimage depends on the keys' bytes alone. -/
theorem manifest_bytes_pubkey {Key : Type} {as_ref : Key → List UInt8} {pubkey : Key → PublicKey}
    (h : ∀ key, as_ref key = (pubkey key).toList) (id : Solana.SettlementId) (exchange : Key) (legs : List (KeyLeg Key)) :
    manifest_bytes as_ref id exchange legs =
      manifest_bytes Vector.toList id (pubkey exchange) (legs.map fun leg => (pubkey leg.1, pubkey leg.2.1, leg.2.2)) := by
  rw [manifest_bytes, manifest_bytes, List.length_map, List.flatMap_map]
  simp only [h]

/-! ## The program and its client -/

/-- No other batch that the program could settle has the hash of these bytes. -/
def CollisionFree (hash : List UInt8 → Solana.Digest) (bytes : List UInt8) : Prop :=
  ∀ (id : Solana.SettlementId) (exchange : PublicKey) (legs : List (KeyLeg PublicKey)), legs.length ≤ Solana.MAX_LEGS →
    hash (manifest_bytes Vector.toList id exchange legs) = hash bytes → manifest_bytes Vector.toList id exchange legs = bytes

/-- The program and the client hash the same bytes; these tell the settlement, the exchange and the legs in their order;
and a batch that the program settles under the hash of some legs is of this settlement and exchange, and moves
collateral for these legs, one after the other. For the last part no other batch may have the hash of what the client
hashed. -/
theorem legs_preimage :
    (∀ (id : Solana.SettlementId) (exchange : PublicKey) (legs : List (KeyLeg PublicKey)), legs.length ≤ 65535 →
      manifest_bytes Vector.toList id exchange legs =
        SolanaVenue.settlementManifestBytes id.toList exchange (clientLegs legs)) ∧
    (∀ (id id' : Solana.SettlementId) (exchange exchange' : PublicKey) (legs legs' : List (KeyLeg PublicKey)),
      legs.length ≤ 65535 → legs'.length ≤ 65535 →
      manifest_bytes Vector.toList id exchange legs = manifest_bytes Vector.toList id' exchange' legs' →
      id = id' ∧ exchange = exchange' ∧ legs = legs') ∧
    ∀ {Key : Type} [DecidableEq Key] (runtime : Solana.Runtime Key) (pubkey : Key → PublicKey),
      (∀ key, runtime.as_ref key = (pubkey key).toList) →
      ∀ (id : Solana.SettlementId) (exchange : PublicKey) (sent : List (KeyLeg PublicKey)), sent.length ≤ 65535 →
      CollisionFree runtime.hash (SolanaVenue.settlementManifestBytes id.toList exchange (clientLegs sent)) →
      ∀ bank signers slot context infos settlement_id legs bank',
        Solana.settle_batch runtime bank signers slot context infos settlement_id
          (runtime.hash (SolanaVenue.settlementManifestBytes id.toList exchange (clientLegs sent))) legs = .ok bank' →
        settlement_id = id ∧ pubkey context.exchange = exchange ∧
        ∃ resolved moved exchange_data receipt, legs.mapM (Solana.resolve_leg infos) = .ok resolved ∧
          (resolved.map fun leg => (pubkey leg.1, pubkey leg.2.1, leg.2.2)) = sent ∧
          resolved.foldlM Solana.move_collateral bank = .ok moved ∧
          bank' = moved.set context.exchange (.exchange exchange_data) ++ [(context.receipt, .receipt receipt)] := by
  refine ⟨fun id exchange legs _ => manifest_bytes_eq id exchange legs,
    fun id id' exchange exchange' legs legs' _ _ h => manifest_bytes_inj h, ?_⟩
  intro Key _ runtime pubkey hpubkey id exchange sent _ hfree bank signers slot context infos settlement_id legs bank' h
  obtain ⟨resolved, moved, exchange_data, receipt, hresolved, hfew, hhash, hmoved, hbank⟩ := Solana.settle_batch_resolved h
  rw [manifest_bytes_pubkey hpubkey] at hhash
  have hbytes := hfree _ _ _ (by rw [List.length_map]; exact hfew) hhash
  rw [← manifest_bytes_eq] at hbytes
  obtain ⟨hid, hexchange, hlegs⟩ := manifest_bytes_inj hbytes
  exact ⟨hid, hexchange, resolved, moved, exchange_data, receipt, hresolved, hlegs, hmoved, hbank⟩

/-! ## A batch -/

section Small
open Solana

def testPubkey : TestKey → PublicKey
  | .collateral _ (.user number) => .replicate 32 (.ofNat number)
  | _ => .replicate 32 17

/-- The client's legs: 30 from the first trader to the second, and 10 back. -/
def testSent : List (KeyLeg PublicKey) :=
  [(.replicate 32 1, .replicate 32 2, 30), (.replicate 32 2, .replicate 32 1, 10)]

def testPreimage : List UInt8 :=
  SolanaVenue.settlementManifestBytes (Vector.replicate 16 7 : SettlementId).toList (.replicate 32 17) (clientLegs testSent)

/-- A hash that tells the client's bytes from all others. -/
def hashingRuntime : Runtime TestKey :=
  { testRuntime with
    as_ref := fun key => (testPubkey key).toList
    hash := fun bytes => if bytes = testPreimage then .replicate 32 0 else .replicate 32 1 }

theorem hash_hashingRuntime (bytes : List UInt8) :
    hashingRuntime.hash bytes = if bytes = testPreimage then .replicate 32 0 else .replicate 32 1 := rfl

theorem hashingRuntime_collisionFree : CollisionFree hashingRuntime.hash testPreimage := by
  intro id exchange legs _ h
  by_contra hne
  rw [hash_hashingRuntime, hash_hashingRuntime, if_neg hne, if_pos (Eq.refl testPreimage)] at h
  revert h
  decide

/-- The traders of the test have deposited. -/
def depositedBank : Bank TestKey :=
  ((walk (Chain.step hashingRuntime) (fun _ _ => True) { bank := testBank, settled := [] }
    (testTransactions.take 4)).map Chain.bank).getD []

def settledBank : Except ProgramError (Bank TestKey) :=
  let exchange : TestKey := .exchange (.user 0) (.user 3)
  settle_batch hashingRuntime depositedBank [.user 0] 4 ⟨.user 0, exchange, .receipt exchange (.replicate 16 7)⟩
    [⟨.collateral exchange (.user 1), true⟩, ⟨.collateral exchange (.user 2), true⟩] (.replicate 16 7)
    (hashingRuntime.hash testPreimage) [⟨0, 1, 30⟩, ⟨1, 0, 10⟩]

theorem legs_preimage_small :
    ∃ (bank : Bank TestKey) (resolved : List (KeyLeg TestKey)) (moved : Bank TestKey), settledBank = .ok bank ∧
      (resolved.map fun leg => (testPubkey leg.1, testPubkey leg.2.1, leg.2.2)) = testSent ∧
      resolved.foldlM move_collateral depositedBank = .ok moved := by
  have hok : ∃ bank, settledBank = .ok bank := by
    have hsome : settledBank.toOption.isSome = true := by decide +kernel
    cases h : settledBank with
    | error e =>
      rw [h] at hsome
      cases hsome
    | ok bank => exact ⟨bank, rfl⟩
  obtain ⟨bank, hbank⟩ := hok
  obtain ⟨-, -, resolved, moved, -, -, -, hlegs, hmoved, -⟩ :=
    legs_preimage.2.2 hashingRuntime testPubkey (fun _ => rfl) (.replicate 16 7) (.replicate 32 17) testSent (by decide)
      hashingRuntime_collisionFree _ _ _ _ _ _ _ _ hbank
  exact ⟨bank, resolved, moved, hbank, hlegs, hmoved⟩

end Small

end TradingLab
