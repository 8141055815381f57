import TradingLab.Lib.Streams
import TradingLab.Header
/-!
# The feed

`to_frame` and `from_frame` of `generator.rs` and the feed thread of `pipeline.rs`. The
thread takes its inputs from memory or decodes them from bytes as it goes, and stops
on a shutdown request, at a send that finds no receiver, or at a malformed frame.
-/
open LabLib

namespace TradingLab

/-! ## Inputs and frames -/

def MarketEventKind.body : MarketEventKind → FrameBody
  | SnapshotBegin snapshot_seq => .SnapshotBegin snapshot_seq
  | SnapshotLevel side price quantity => .SnapshotLevel side price quantity
  | SnapshotEnd snapshot_seq level_count => .SnapshotEnd snapshot_seq level_count 0
  | LevelSet side price quantity => .LevelSet side price quantity
  | Trade aggressor price quantity => .MarketTrade aggressor price quantity
  | Heartbeat => .Heartbeat
  | FeedReset new_epoch => .FeedReset new_epoch

/-- Control inputs have no frame. -/
def to_frame (input : EngineInput) : Option Frame :=
  match input.event with
  | .Market event =>
    some {
      source_seq := event.source_seq
      source_time_ns := event.source_time_ns
      recv_time_ns := input.recv_time_ns
      instrument := event.instrument
      body := event.kind.body }
  | .Order request =>
    some {
      source_seq := 0
      source_time_ns := input.recv_time_ns
      recv_time_ns := input.recv_time_ns
      instrument := request.instrument
      body := .OrderRequest request }
  | .Control _ => none

/-- What `from_frame` makes of the body. -/
def Frame.event (frame : Frame) : InputEvent :=
  let market (kind : MarketEventKind) : InputEvent := .Market {
    instrument := frame.instrument
    source_seq := frame.source_seq
    source_time_ns := frame.source_time_ns
    kind := kind }
  match frame.body with
  | .OrderRequest request => .Order request
  | .SnapshotBegin snapshot_seq => market (.SnapshotBegin snapshot_seq)
  | .SnapshotLevel side price quantity => market (.SnapshotLevel side price quantity)
  | .SnapshotEnd snapshot_seq level_count _ => market (.SnapshotEnd snapshot_seq level_count)
  | .LevelSet side price quantity => market (.LevelSet side price quantity)
  | .MarketTrade aggressor price quantity => market (.Trade aggressor price quantity)
  | .Heartbeat => market .Heartbeat
  | .FeedReset new_epoch => market (.FeedReset new_epoch)

def from_frame (frame : Frame) (ingress_seq : IngressSeq) : EngineInput where
  ingress_seq := ingress_seq
  recv_time_ns := frame.recv_time_ns
  event := frame.event

/-! ## The feed thread -/

/-- What the other threads show the feed in each round: whether a shutdown is
requested, and whether the input queue takes another input. -/
structure FeedRounds where
  shutdown : Nat → Bool
  accepts : Nat → Bool

/-- The inputs that went into the queue, and the two counters. -/
structure FeedOutcome where
  sent : List EngineInput
  produced : Nat
  decode_errors : Nat

def FeedOutcome.after (outcome : FeedOutcome) (input : EngineInput) : FeedOutcome :=
  { outcome with sent := input :: outcome.sent }

/-- `FeedSource::Memory`; the pacing only delays. -/
def feed_memory (rounds : FeedRounds) (produced : Nat) : List EngineInput → FeedOutcome
  | [] => { sent := [], produced := produced, decode_errors := 0 }
  | input :: inputs =>
    if rounds.shutdown produced then { sent := [], produced := produced, decode_errors := 0 }
    else if rounds.accepts produced then (feed_memory rounds (produced + 1) inputs).after input
    else { sent := [], produced := produced + 1, decode_errors := 0 }

section Feed
variable (crc32 : List UInt8 → UInt32)

/-- The loop over the bytes behind the header. A frame takes some bytes, so their number
is fuel enough. -/
def feed_frames (rounds : FeedRounds) : Nat → Nat → List UInt8 → FeedOutcome
  | 0, produced, _ => { sent := [], produced := produced, decode_errors := 0 }
  | fuel + 1, produced, bytes =>
    if bytes = [] then { sent := [], produced := produced, decode_errors := 0 }
    else if rounds.shutdown produced then { sent := [], produced := produced, decode_errors := 0 }
    else
      match Frame.decode crc32 bytes with
      | .ok (frame, consumed) =>
        -- the engine assigns the canonical sequence
        let input := from_frame frame (.ofNat (produced + 1))
        if rounds.accepts produced then (feed_frames rounds fuel (produced + 1) (bytes.drop consumed)).after input
        else { sent := [], produced := produced + 1, decode_errors := 0 }
      | .error _ => { sent := [], produced := produced, decode_errors := 1 }

/-- `FeedSource::Bytes`. -/
def feed_bytes (rounds : FeedRounds) (bytes : List UInt8) : FeedOutcome :=
  match FileHeader.decode crc32 bytes with
  | .ok (_, consumed) => feed_frames crc32 rounds bytes.length 0 (bytes.drop consumed)
  | .error _ => { sent := [], produced := 0, decode_errors := 1 }

/-- The frame of an input, encoded. -/
def encode_frame (input : EngineInput) : List UInt8 := (to_frame input).elim [] (Frame.encode crc32)

/-- A feed file with these inputs. -/
def feed_file (header : FileHeader) (inputs : List EngineInput) : List UInt8 :=
  header.encode crc32 ++ inputs.flatMap (encode_frame crc32)

end Feed

/-! ## Conversion -/

/-- What a file can carry: no control inputs, and no trade of nothing. -/
def EngineInput.Carried (input : EngineInput) : Prop :=
  match input.event with
  | .Market event => ∀ aggressor price, event.kind ≠ .Trade aggressor price 0
  | .Order _ => True
  | .Control _ => False

/-- What the engine takes from an input of the feed. -/
def EngineInput.content (input : EngineInput) : InputEvent × UInt64 := (input.event, input.recv_time_ns)

theorem to_frame_content {input : EngineInput} (h : input.Carried) :
    ∃ frame, to_frame input = some frame ∧ frame.body.Encodable frame.instrument ∧
      ∀ ingress_seq, (from_frame frame ingress_seq).content = input.content := by
  obtain ⟨ingress_seq, recv_time_ns, event⟩ := input
  cases event with
  | Market event =>
    obtain ⟨instrument, source_seq, source_time_ns, kind⟩ := event
    refine ⟨_, rfl, ?_, fun _ => ?_⟩
    · cases kind with
      | Trade aggressor price quantity =>
        intro hzero
        exact h aggressor price (by rw [show quantity = 0 from hzero])
      | _ => trivial
    · cases kind <;> rfl
  | Order request => exact ⟨_, rfl, rfl, fun _ => rfl⟩
  | Control command => cases h

section Feed
variable {crc32 : List UInt8 → UInt32}

/-- One round on the frame of an input, as with the input itself. -/
theorem feed_frames_frame {input : EngineInput} (h : input.Carried) (rounds : FeedRounds) (fuel produced : Nat)
    (rest : List UInt8) :
    ∃ decoded : EngineInput, decoded.content = input.content ∧
      feed_frames crc32 rounds (fuel + 1) produced (encode_frame crc32 input ++ rest) =
        if rounds.shutdown produced then { sent := [], produced := produced, decode_errors := 0 }
        else if rounds.accepts produced then (feed_frames crc32 rounds fuel (produced + 1) rest).after decoded
        else { sent := [], produced := produced + 1, decode_errors := 0 } := by
  obtain ⟨frame, hframe, hencodable, hcontent⟩ := to_frame_content h
  refine ⟨from_frame frame (.ofNat (produced + 1)), hcontent _, ?_⟩
  have hencode : encode_frame crc32 input = frame.encode crc32 := by rw [encode_frame, hframe, Option.elim_some]
  have hne : frame.encode crc32 ++ rest ≠ [] := by
    refine List.ne_nil_of_length_pos ?_
    rw [List.length_append, Frame.length_encode, FRAME_CRC_LEN]
    omega
  rw [hencode, feed_frames, if_neg hne, Frame.decode_encode hencodable]
  simp only [List.drop_left]

/-- One round on a part of a frame. -/
theorem feed_frames_torn {inputs : List EngineInput} {part : List UInt8} (h : Torn (encode_frame crc32) inputs part)
    (rounds : FeedRounds) (fuel produced : Nat) :
    feed_frames crc32 rounds (fuel + 1) produced part =
      { sent := [], produced := produced, decode_errors := if rounds.shutdown produced then 0 else 1 } := by
  have hne := h.ne_nil
  obtain ⟨input, -, n, -, hn, rfl⟩ := h
  obtain ⟨frame, hencode⟩ : ∃ frame : Frame, encode_frame crc32 input = frame.encode crc32 := by
    cases hframe : to_frame input with
    | none =>
      rw [encode_frame, hframe] at hn
      exact absurd hn (Nat.not_lt_zero n)
    | some frame => exact ⟨frame, by rw [encode_frame, hframe, Option.elim_some]⟩
  rw [hencode] at hne hn ⊢
  rw [feed_frames, if_neg hne, Frame.decode_torn frame hn]
  split <;> rfl

/-- Nobody asks for a shutdown, and the engine takes every input. -/
def FeedRounds.undisturbed : FeedRounds where
  shutdown _ := false
  accepts _ := true

/-- Over whole frames the loop sends what it would send from memory, in whatever round it
is stopped; if it is not, it comes to what is left of the next frame. -/
theorem feed_frames_stream {inputs all : List EngineInput} (hinputs : ∀ input ∈ inputs, input.Carried) {part : List UInt8}
    (hpart : part = [] ∨ Torn (encode_frame crc32) all part) (rounds : FeedRounds) (fuel produced : Nat)
    (hfuel : (inputs.flatMap (encode_frame crc32) ++ part).length ≤ fuel) :
    let outcome := feed_frames crc32 rounds fuel produced (inputs.flatMap (encode_frame crc32) ++ part)
    outcome.sent.map EngineInput.content = (feed_memory rounds produced inputs).sent.map EngineInput.content ∧
      (part = [] → outcome.decode_errors = 0) ∧
      (rounds = .undisturbed → outcome.decode_errors = if part = [] then 0 else 1) := by
  induction inputs generalizing fuel produced with
  | nil =>
    rw [List.flatMap_nil, List.nil_append] at hfuel ⊢
    rcases hpart with rfl | htorn
    · cases fuel <;> exact ⟨rfl, fun _ => rfl, fun _ => rfl⟩
    · have hne := htorn.ne_nil
      cases fuel with
      | zero => exact absurd (List.length_eq_zero_iff.1 (Nat.le_zero.1 hfuel)) hne
      | succ fuel =>
        rw [feed_frames_torn htorn, if_neg hne]
        refine ⟨rfl, fun hnil => absurd hnil hne, ?_⟩
        rintro rfl
        rfl
  | cons input inputs ih =>
    rw [List.forall_mem_cons] at hinputs
    rw [List.flatMap_cons, List.append_assoc] at hfuel ⊢
    have hlength : 0 < (encode_frame crc32 input).length := by
      obtain ⟨frame, hframe, -⟩ := to_frame_content hinputs.1
      rw [encode_frame, hframe, Option.elim_some, Frame.length_encode, FRAME_CRC_LEN]
      omega
    rw [List.length_append] at hfuel
    cases fuel with
    | zero => omega
    | succ fuel =>
      obtain ⟨decoded, hdecoded, hround⟩ := feed_frames_frame hinputs.1 rounds fuel produced
        (inputs.flatMap (encode_frame crc32) ++ part)
      obtain ⟨hsent, hwhole, hrun⟩ := ih hinputs.2 fuel (produced + 1) (by omega)
      rw [hround, feed_memory]
      split
      · rename_i hshutdown
        refine ⟨rfl, fun _ => rfl, ?_⟩
        rintro rfl
        cases hshutdown
      · split
        · refine ⟨?_, hwhole, hrun⟩
          rw [FeedOutcome.after, FeedOutcome.after, List.map_cons, List.map_cons, hdecoded, hsent]
        · rename_i haccepts
          refine ⟨rfl, fun _ => rfl, ?_⟩
          rintro rfl
          exact absurd rfl haccepts

theorem feed_memory_take (rounds : FeedRounds) (produced k : Nat) (inputs : List EngineInput) :
    (feed_memory rounds produced (inputs.take k)).sent <+: (feed_memory rounds produced inputs).sent := by
  induction inputs generalizing produced k with
  | nil => rw [List.take_nil]
  | cons input inputs ih =>
    cases k with
    | zero => exact List.nil_prefix
    | succ k =>
      rw [List.take_succ_cons, feed_memory, feed_memory]
      split
      · exact List.prefix_rfl
      · split
        · exact List.prefix_cons_inj input |>.2 (ih _ _)
        · exact List.prefix_rfl

/-- The header is skipped, however much is left of the frames. -/
theorem feed_bytes_stream {header : FileHeader} (hheader : header.Valid) {inputs all : List EngineInput}
    (hinputs : ∀ input ∈ inputs, input.Carried) {part : List UInt8}
    (hpart : part = [] ∨ Torn (encode_frame crc32) all part) (rounds : FeedRounds) :
    let outcome := feed_bytes crc32 rounds (header.encode crc32 ++ (inputs.flatMap (encode_frame crc32) ++ part))
    outcome.sent.map EngineInput.content = (feed_memory rounds 0 inputs).sent.map EngineInput.content ∧
      (part = [] → outcome.decode_errors = 0) ∧
      (rounds = .undisturbed → outcome.decode_errors = if part = [] then 0 else 1) := by
  rw [feed_bytes, FileHeader.decode_encode hheader, List.length_append]
  simp only [List.drop_left]
  exact feed_frames_stream hinputs hpart rounds _ 0 (Nat.le_add_left _ _)

/-- From a file the engine gets what it would get from memory, without an error; from a
part of a file it gets the inputs of the complete frames, with an error just when the
last frame is cut. -/
theorem bytes_feed_sends_memory_feed (crc32 : List UInt8 → UInt32) {header : FileHeader} (hheader : header.Valid)
    {inputs : List EngineInput} (hinputs : ∀ input ∈ inputs, input.Carried) :
    (∀ rounds,
      (feed_bytes crc32 rounds (feed_file crc32 header inputs)).sent.map EngineInput.content =
          (feed_memory rounds 0 inputs).sent.map EngineInput.content ∧
        (feed_bytes crc32 rounds (feed_file crc32 header inputs)).decode_errors = 0) ∧
    (∀ c, (header.encode crc32).length ≤ c → c ≤ (feed_file crc32 header inputs).length →
      (∀ rounds, (feed_bytes crc32 rounds ((feed_file crc32 header inputs).take c)).sent.map EngineInput.content <+:
        (feed_memory rounds 0 inputs).sent.map EngineInput.content) ∧
      (feed_bytes crc32 .undisturbed ((feed_file crc32 header inputs).take c)).decode_errors ≤ 1 ∧
      ((feed_bytes crc32 .undisturbed ((feed_file crc32 header inputs).take c)).decode_errors = 1 ↔
        ∀ k ≤ inputs.length, c ≠ (header.encode crc32).length + boundary (encode_frame crc32) inputs k)) := by
  refine ⟨fun rounds => ?_, fun c hbehind hc => ?_⟩
  · have hwhole : ([] : List UInt8) = [] ∨ Torn (encode_frame crc32) inputs [] := .inl rfl
    obtain ⟨hsent, herrors, -⟩ := feed_bytes_stream hheader hinputs hwhole rounds
    rw [List.append_nil] at hsent herrors
    exact ⟨hsent, herrors rfl⟩
  · have htotal : c - (header.encode crc32).length ≤ (inputs.flatMap (encode_frame crc32)).length := by
      rw [feed_file, List.length_append] at hc
      omega
    obtain ⟨k, part, hcut⟩ := exists_cutAt inputs htotal
    have htake : (feed_file crc32 header inputs).take c =
        header.encode crc32 ++ ((inputs.take k).flatMap (encode_frame crc32) ++ part) := by
      rw [← hcut.stream, feed_file, List.take_append, List.take_of_length_le hbehind]
    have hcarried : ∀ input ∈ inputs.take k, input.Carried := fun input h => hinputs input (List.mem_of_mem_take h)
    have hstream := feed_bytes_stream hheader hcarried hcut.torn
    rw [htake]
    refine ⟨fun rounds => ?_, ?_, ?_⟩
    · rw [(hstream rounds).1]
      exact (feed_memory_take rounds 0 k inputs).map _
    · rw [(hstream .undisturbed).2.2 rfl]
      split <;> omega
    · have hinside : part ≠ [] ↔ ∀ k ≤ inputs.length, c ≠ (header.encode crc32).length + boundary (encode_frame crc32) inputs k := by
        rw [hcut.part_ne_nil]
        exact forall₂_congr fun j _ => by omega
      rw [(hstream .undisturbed).2.2 rfl, ← hinside]
      split <;> simp_all

/-- An order and a trade. -/
def smallFeed : List EngineInput :=
  [⟨1, 6, .Order ⟨.New, 1, 1, 8, 1, 9, 0, .Buy, .Limit, 100, 20⟩⟩, ⟨2, 7, .Market ⟨2, 3, 4, .Trade .Sell 99 5⟩⟩]

/-- From the whole file the engine gets both, and from a file that is cut in the second frame the order and an error. -/
theorem bytes_feed_sends_memory_feed_small :
    (feed_bytes (fun _ => 7) .undisturbed (feed_file (fun _ => 7) smallHeader smallFeed)).sent.map EngineInput.content =
      smallFeed.map EngineInput.content ∧
    ∃ c < (feed_file (fun _ => 7) smallHeader smallFeed).length,
      (feed_bytes (fun _ => 7) .undisturbed ((feed_file (fun _ => 7) smallHeader smallFeed).take c)).sent.map
        EngineInput.content <+: smallFeed.map EngineInput.content ∧
      (feed_bytes (fun _ => 7) .undisturbed ((feed_file (fun _ => 7) smallHeader smallFeed).take c)).decode_errors = 1 := by
  have hinputs : ∀ input ∈ smallFeed, input.Carried := by simp [smallFeed, EngineInput.Carried]
  obtain ⟨hwhole, hpart⟩ := bytes_feed_sends_memory_feed (fun _ => 7) smallHeader_valid hinputs
  have hcut := hpart ((feed_file (fun _ => 7) smallHeader smallFeed).length - 3) (by decide +kernel) (by decide +kernel)
  exact ⟨(hwhole .undisturbed).1, _, by decide +kernel, hcut.1 .undisturbed, hcut.2.2.2 (by decide +kernel)⟩

end Feed

end TradingLab
