import PathPolicy.Proofs.Json.Kept
import PathPolicy.Proofs.Wire.Tracing

/-!
Requests survive the wire. What a client makes is read as it was made, with its message, and what
was read from any body is sent on and read again without a change; the text of the data goes along
byte for byte.
-/
namespace PathPolicy.Request
open Json

/-- The body is accepted as a request with this id, service and method, and its data are read as
the message. -/
def Carries {α : Type} [Codable α] (absent : α) (id : UInt64) (service method : String) (m : α)
    (body : Bytes) : Prop :=
  ∃ r, parse body = .ok r ∧ r.version = protocolVersion ∧ r.id = id ∧ r.service = service ∧
    r.method = method ∧ r.payload absent = .ok m

theorem carries_make {α : Type} [Codable α] {depth : Nat} {m : α} (h : RoundTrips depth m)
    (hdepth : depth ≤ 127) (hwritten : Written (encode m)) (hopens : Opens (encode m)) (absent : α)
    (id : UInt64) (service method : String) :
    Carries absent id service method m (encode (make id service method m)) :=
  ⟨make id service method m, parse_encode_make hwritten hopens id service method, rfl, rfl, rfl, rfl,
    payload_make h hdepth absent id service method⟩

theorem keptIn_of_parse {body : Bytes} {r : Request} (h : parse body = .ok r) :
    r.version = protocolVersion ∧ KeptIn body r.data := by
  have hfields : FieldsKeep body (KeptIn body ·.data) record.fields :=
    .of (yields_numeric _) (fun _ _ _ h => h) <| .of (yields_numeric _) (fun _ _ _ h => h) <|
    .of yields_string (fun _ _ _ h => h) <| .of yields_string (fun _ _ _ h => h) <|
    .of yields_data (fun _ h _ _ => h) .nil
  unfold parse at h
  split at h
  · cases h
  next r' hdecode =>
    split at h
    next hversion =>
      cases h
      exact ⟨hversion, Yields.decode (yields_record nofun hfields) hdecode⟩
    · cases h

/-- Every message with finite coordinates arrives, with its request, as it was sent. Whatever is
read from an accepted body is read again from what is sent on, and the text of its data stands in
both. -/
theorem survives_wire :
    (∀ id service method (m : Selector.Message), m.FiniteCoordinates →
      Carries .empty id service method m (encode (make id service method m))) ∧
    (∀ id service method (m : Tracer.Message),
      Carries .empty id service method m (encode (make id service method m))) ∧
    ∀ body r, parse body = .ok r →
      parse (encode r) = .ok r ∧ ∀ raw ∈ r.data, raw.text <:+: body ∧ raw.text <:+: encode r := by
  refine ⟨fun id service method m hfinite => ?_, fun id service method m => ?_, fun body r h => ?_⟩
  · exact carries_make (Selector.roundTrips_message hfinite) (by decide) (Selector.written_message m)
      (opens_record Selector.Message.record m) _ id service method
  · exact carries_make (Tracer.roundTrips_message m) (by decide) (Tracer.written_message m)
      (opens_record Tracer.Message.record m) _ id service method
  · obtain ⟨hversion, hkept⟩ := keptIn_of_parse h
    have hagain := parse_encode hversion fun raw hraw => (hkept raw hraw).1
    -- what is sent on is a body that is accepted, too
    obtain ⟨-, hwritten⟩ := keptIn_of_parse hagain
    exact ⟨hagain, fun raw hraw => ⟨(hkept raw hraw).2, (hwritten raw hraw).2⟩⟩

def sampleMessage : Selector.Message :=
  { Selector.Message.empty with
    fingerprint := some ""
    paths := some [⟨"a", "b", some ⟨0, [], [], [], [], [], [], [⟨47.5, -8.25, ""⟩]⟩, "", 0⟩] }

/-- The body is a list with spaces, and its data end in half a surrogate pair, which no string can
hold. They are kept nevertheless. -/
theorem survives_wire_sample :
    let body := Bytes.ofText "[1, 7, \"Tracer\", \"Debug\", [ 1.0E2 , \"\\ud83d\" ] ]"
    let r : Request :=
      ⟨1, 7, "Tracer", "Debug", some ⟨Bytes.ofText "[ 1.0E2 , \"\\ud83d\" ]"⟩⟩
    sampleMessage.FiniteCoordinates ∧
    Carries .empty 7 "Selector" "Refresh" sampleMessage
      (encode (make 7 "Selector" "Refresh" sampleMessage)) ∧
    parse body = .ok r ∧ parse (encode r) = .ok r := by
  intro body r
  obtain ⟨hselector, -, hagain⟩ := survives_wire
  have hlocation : Location.FiniteCoordinates ⟨47.5, -8.25, ""⟩ := ⟨by rfl, by rfl⟩
  have hfinite : sampleMessage.FiniteCoordinates := by
    simpa [Selector.Message.FiniteCoordinates, WirePath.FiniteCoordinates, sampleMessage]
      using hlocation
  have hparse : parse body = .ok r := by rfl
  exact ⟨hfinite, hselector 7 "Selector" "Refresh" sampleMessage hfinite, hparse,
    (hagain body r hparse).1⟩

end PathPolicy.Request
