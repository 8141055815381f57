import TradingLab.Lib.Text
import TradingLab.Canton
import TradingLab.CantonVenue
/-!
# The economics of a settlement

The workflow compares the legs that the operator states with those of the instruction as
texts. Fields are not escaped: a leg ends where the next bar is, its payer where its first
angle bracket is, and its payee at its last colon, since no amount has one.
-/
open LabLib

namespace TradingLab.Canton

/-- The party's text leaves the separators of legs and of their parties alone. -/
def Party.Plain (party : Party) : Prop := '|' ∉ party.partyToText.toList ∧ '>' ∉ party.partyToText.toList

instance (party : Party) : Decidable party.Plain :=
  inferInstanceAs (Decidable ('|' ∉ party.partyToText.toList ∧ '>' ∉ party.partyToText.toList))

def Leg.Plain (leg : Leg) : Prop := leg.payer.Plain ∧ leg.payee.Plain

instance (leg : Leg) : Decidable leg.Plain := inferInstanceAs (Decidable (leg.payer.Plain ∧ leg.payee.Plain))

/-- A leg as the JSON API writes it. -/
def Leg.json (leg : Leg) : PartyLeg := ⟨leg.payer.partyToText, leg.payee.partyToText, toString (val leg.amount)⟩

/-! ## Legs -/

section Texts
variable {leg leg' : Leg} {legs legs' : List Leg}

theorem toList_encodeLeg (leg : Leg) : (encodeLeg leg).toList =
    leg.payer.partyToText.toList ++ '>' :: (leg.payee.partyToText.toList ++ ':' :: (toString (val leg.amount)).toList) := by
  simp [encodeLeg]

theorem bar_notMem_encodeLeg (h : leg.Plain) : '|' ∉ (encodeLeg leg).toList := by
  have hamount : '|' ∉ (toString (val leg.amount)).toList := fun hmem => absurd (decimalChar_of_mem_int hmem) (by decide)
  have hpayer := h.1.1
  have hpayee := h.2.1
  rw [toList_encodeLeg]
  simp only [List.mem_append, List.mem_cons, not_or]
  exact ⟨hpayer, by decide, hpayee, by decide, hamount⟩

theorem encodeLeg_inj (h : leg.Plain) (h' : leg'.Plain) : encodeLeg leg = encodeLeg leg' ↔ leg = leg' := by
  have hamount (leg : Leg) : ':' ∉ (toString (val leg.amount)).toList := fun hmem =>
    absurd (decimalChar_of_mem_int hmem) (by decide)
  constructor
  · intro heq
    rw [← String.toList_inj, toList_encodeLeg, toList_encodeLeg, append_sep_inj h.1.2 h'.1.2,
      append_last_sep_inj (hamount leg) (hamount leg'), String.toList_inj, String.toList_inj, String.toList_inj,
      Int.toString_eq_repr, Int.toString_eq_repr, Int.repr_inj, val_inj] at heq
    obtain ⟨⟨payer⟩, ⟨payee⟩, amount⟩ := leg
    obtain ⟨⟨payer'⟩, ⟨payee'⟩, amount'⟩ := leg'
    obtain ⟨rfl, rfl, rfl⟩ := heq
    rfl
  · rintro rfl
    rfl

theorem map_encodeLeg_inj (h : ∀ leg ∈ legs, leg.Plain) (h' : ∀ leg ∈ legs', leg.Plain)
    (heq : legs.map encodeLeg = legs'.map encodeLeg) : legs = legs' := by
  induction legs generalizing legs' with
  | nil => exact (List.map_eq_nil_iff.1 heq.symm).symm
  | cons leg legs ih =>
    cases legs' with
    | nil => cases heq
    | cons leg' legs' =>
      rw [List.map_cons, List.map_cons, List.cons.injEq] at heq
      obtain ⟨hleg, hlegs⟩ := List.forall_mem_cons.1 h
      obtain ⟨hleg', hlegs'⟩ := List.forall_mem_cons.1 h'
      rw [(encodeLeg_inj hleg hleg').1 heq.1, ih hlegs hlegs' heq.2]

theorem toList_canonicalEconomics (settlementId : String) (legs : List Leg) :
    (canonicalEconomics settlementId legs).toList =
      settlementId.toList ++ '|' ::
        ['|'].intercalate ((toString legs.length :: legs.map encodeLeg).map String.toList) := by
  simp [canonicalEconomics, String.toList_intercalate]

/-- Behind the settlement id every field ends at the next bar. -/
theorem bar_notMem_fields (h : ∀ leg ∈ legs, leg.Plain) :
    ∀ field ∈ (toString legs.length :: legs.map encodeLeg).map String.toList, '|' ∉ field := by
  intro field hfield
  simp only [List.map_cons, List.map_map, List.mem_cons, List.mem_map] at hfield
  obtain rfl | ⟨leg, hleg, rfl⟩ := hfield
  · exact fun hmem => absurd (decimalChar_of_mem_nat hmem) (by decide)
  · exact bar_notMem_encodeLeg (h leg hleg)

theorem canonicalEconomics_inj (settlementId : String) (h : ∀ leg ∈ legs, leg.Plain) (h' : ∀ leg ∈ legs', leg.Plain) :
    canonicalEconomics settlementId legs = canonicalEconomics settlementId legs' ↔ legs = legs' := by
  constructor
  · intro heq
    rw [← String.toList_inj, toList_canonicalEconomics, toList_canonicalEconomics, List.append_cancel_left_eq,
      List.cons.injEq, intercalate_inj (bar_notMem_fields h) (bar_notMem_fields h') (by simp) (by simp)] at heq
    have htexts := (List.map_injective_iff.2 fun _ _ => String.toList_inj.1) heq.2
    have hlegs : legs.map encodeLeg = legs'.map encodeLeg := (List.cons.inj htexts).2
    exact map_encodeLeg_inj h h' hlegs
  · rintro rfl
    rfl

/-- The client writes the same text. -/
theorem canonicalEconomics_json (settlementId : String) (legs : List Leg) :
    CantonVenue.canonicalEconomics settlementId (legs.map Leg.json) = canonicalEconomics settlementId legs := by
  rw [CantonVenue.canonicalEconomics, canonicalEconomics, List.length_map, List.map_map]
  rfl

end Texts

/-! ## The check -/

section Check
variable {ledger : Ledger} {actAs authorizers : List Party} {id : Nat} {instruction : SettlementInstruction} {operator : Party}
  {key : Party × Party} {delta : Int64} {legs expectedLegs : List Leg}

/-- What `Settle` fails with when the texts differ. -/
def economicsMismatch : Failure := .assertMsg "settled economics do not match the instruction"

namespace Ledger

theorem createHolding_ne_mismatch (holding : Holding) :
    ledger.createHolding authorizers holding ≠ .error economicsMismatch := by
  intro h
  simp only [createHolding, require_bind_error, economicsMismatch, reduceCtorEq, and_false, false_or] at h
  obtain ⟨-, -, -, h⟩ := h
  cases h

theorem debit_ne_mismatch : ledger.debit authorizers key delta ≠ .error economicsMismatch := by
  intro h
  simp only [debit, ok_or_bind_error, require_bind_error, economicsMismatch, reduceCtorEq, and_false, false_or,
    Failure.assertMsg.injEq, String.reduceEq] at h
  obtain ⟨holding, -, -, -, -, amount, -, h⟩ := h
  exact createHolding_ne_mismatch _ h

theorem credit_ne_mismatch : ledger.credit authorizers key delta ≠ .error economicsMismatch := by
  intro h
  simp only [credit, ok_or_bind_error, require_bind_error, economicsMismatch, reduceCtorEq, and_false, false_or,
    Failure.assertMsg.injEq, String.reduceEq] at h
  obtain ⟨holding, -, -, -, amount, -, h⟩ := h
  exact createHolding_ne_mismatch _ h

/-- No leg fails with the words of the comparison. -/
theorem settleLegs_ne_mismatch (legs : List Leg) :
    legs.foldlM (settleLeg operator authorizers) ledger ≠ .error economicsMismatch := by
  induction legs generalizing ledger with
  | nil => exact fun h => by cases h
  | cons leg legs ih =>
    rw [List.foldlM_cons]
    intro h
    rw [error_bind_iff] at h
    obtain h | ⟨middle, -, h⟩ := h
    · simp only [settleLeg, require_bind_error, economicsMismatch, Failure.assertMsg.injEq, String.reduceEq, and_false,
        false_or] at h
      obtain ⟨-, -, h⟩ := h
      obtain h | ⟨debited, -, h⟩ := error_bind_iff.1 h
      · exact debit_ne_mismatch h
      · exact credit_ne_mismatch h
    · exact ih h

theorem createReceipt_ne_mismatch (receipt : SettlementReceipt) :
    ledger.createReceipt authorizers receipt ≠ .error economicsMismatch := by
  intro h
  simp only [createReceipt, require_bind_error, economicsMismatch, reduceCtorEq, and_false, false_or] at h
  obtain ⟨-, -, h⟩ := h
  cases h

/-- Once the checks before it have passed, `Settle` fails with these words when the texts differ, and only then. -/
theorem settle_mismatch_iff (hfetch : ledger.fetchInstruction id = some instruction) (hoperator : instruction.operator ∈ actAs)
    (haccepted : ∀ party ∈ involvedParties instruction.legs, party ∈ instruction.accepted) :
    ledger.settle actAs id expectedLegs instruction.legs.length = .error economicsMismatch ↔
      canonicalEconomics instruction.settlementId expectedLegs ≠
        canonicalEconomics instruction.settlementId instruction.legs := by
  have hconsume : ledger.consumeInstruction id =
      .ok (instruction, { ledger with instructions := without Prod.fst id ledger.instructions }) := by
    rw [consumeInstruction, hfetch]
    rfl
  rw [settle, hconsume, error_bind_iff]
  simp only [reduceCtorEq, false_or, Except.ok.injEq, exists_eq_left', require_bind_error, hoperator, not_true_eq_false,
    false_and, true_and]
  constructor
  · rintro (⟨hnot, -⟩ | ⟨-, ⟨hne, -⟩ | ⟨-, h⟩⟩)
    · exact absurd haccepted hnot
    · exact hne
    · obtain h | ⟨settled, -, h⟩ := error_bind_iff.1 h
      · exact absurd h (settleLegs_ne_mismatch _)
      · exact absurd h (createReceipt_ne_mismatch _)
  · intro hne
    exact .inr ⟨haccepted, .inl ⟨hne, rfl⟩⟩

end Ledger

/-- Parties' texts may have colons and dashes, and amounts a sign. The text identifies the legs, so `Settle` takes the
stated legs exactly when they are those of the instruction, in their order; and the client writes the same text. -/
theorem economics_identify_legs (settlementId : String) {legs legs' : List Leg} (hlegs : ∀ leg ∈ legs, leg.Plain)
    (hlegs' : ∀ leg ∈ legs', leg.Plain) :
    (canonicalEconomics settlementId legs = canonicalEconomics settlementId legs' ↔ legs = legs') ∧
    (∀ (ledger : Ledger) (actAs : List Party) (id : Nat) (instruction : SettlementInstruction),
      ledger.fetchInstruction id = some instruction → instruction.settlementId = settlementId → instruction.legs = legs →
      instruction.operator ∈ actAs → (∀ party ∈ involvedParties legs, party ∈ instruction.accepted) →
      (ledger.settle actAs id legs' legs.length ≠ .error economicsMismatch ↔ legs' = legs)) ∧
    CantonVenue.canonicalEconomics settlementId (legs.map Leg.json) = canonicalEconomics settlementId legs := by
  refine ⟨canonicalEconomics_inj settlementId hlegs hlegs', ?_, canonicalEconomics_json settlementId legs⟩
  rintro ledger actAs id instruction hfetch rfl rfl hoperator haccepted
  rw [ne_eq, Ledger.settle_mismatch_iff hfetch hoperator haccepted, not_not]
  exact canonicalEconomics_inj _ hlegs' hlegs

/-- The payee's text ends where the colon before the sign is, and the leg where the bar is. -/
def signedLegs (amount : Int64) : List Leg := [⟨⟨"fund:7"⟩, ⟨"desk-2:a"⟩, amount⟩, ⟨⟨"desk-2:a"⟩, ⟨"fund:7"⟩, 3⟩]

def signedInstruction : SettlementInstruction := ⟨⟨"operator"⟩, "stl|1", signedLegs 5, [⟨"fund:7"⟩, ⟨"desk-2:a"⟩]⟩

theorem economics_identify_legs_small :
    (∀ leg ∈ signedLegs 5, leg.Plain) ∧
    CantonVenue.canonicalEconomics "stl|1" ((signedLegs 5).map Leg.json) = "stl|1|2|fund:7>desk-2:a:5|desk-2:a>fund:7:3" ∧
    canonicalEconomics "stl|1" (signedLegs 5) ≠ canonicalEconomics "stl|1" (signedLegs (-5)) ∧
    Ledger.settle ⟨[], [(0, signedInstruction)], [], 1⟩ [⟨"operator"⟩] 0 (signedLegs (-5)) 2 = .error economicsMismatch := by
  have hplain : ∀ leg ∈ signedLegs 5, leg.Plain := by decide
  have hplain' : ∀ leg ∈ signedLegs (-5), leg.Plain := by decide
  obtain ⟨htexts, hsettle, hjson⟩ := economics_identify_legs "stl|1" hplain hplain'
  refine ⟨hplain, hjson.trans (by decide), fun heq => absurd (htexts.1 heq) (by decide), ?_⟩
  have hiff := hsettle ⟨[], [(0, signedInstruction)], [], 1⟩ [⟨"operator"⟩] 0 signedInstruction (by decide) rfl rfl (by decide)
    (by decide)
  exact not_not.1 fun hne => absurd (hiff.1 hne) (by decide)

end Check

end TradingLab.Canton
