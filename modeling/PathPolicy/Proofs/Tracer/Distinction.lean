import PathPolicy.Proofs.Client.Telemetry
import PathPolicy.Proofs.Tracer.Description
import PathPolicy.Proofs.Vm.Tables

/-!
No two events look alike to the script. What a function of the script is called with determines the
event, but for the round-trip times, which scripts are told in seconds, and for what a deadline has
of less than a microsecond.
-/
namespace PathPolicy.Script

/-! ### Values that tell what they were made of -/

namespace Value

@[simp] theorem ofUInt64_inj {m n : UInt64} : ofUInt64 m = ofUInt64 n ↔ m = n := by
  refine ⟨fun h => ?_, congrArg ofUInt64⟩
  have hview := congrArg unsigned? h
  rw [unsigned?_ofUInt64, unsigned?_ofUInt64] at hview
  exact Option.some.inj hview

theorem ofNat_inj {m n : Nat} (hm : m < 2 ^ 63) (hn : n < 2 ^ 63) : ofNat m = ofNat n ↔ m = n := by
  refine ⟨fun h => ?_, congrArg ofNat⟩
  have htoInt : (Int64.ofInt m).toInt = (Int64.ofInt n).toInt :=
    congrArg Int64.toInt (integer.inj h)
  rw [Int64.toInt_ofInt_of_le (by omega) (by omega),
    Int64.toInt_ofInt_of_le (by omega) (by omega)] at htoInt
  exact Int.ofNat.inj htoInt

@[simp] theorem ofNat_toNat_inj {m n : UInt8} : ofNat m.toNat = ofNat n.toNat ↔ m = n := by
  have hm := m.toNat_lt
  have hn := n.toNat_lt
  rw [ofNat_inj (by omega) (by omega), UInt8.toNat_inj]

@[simp] theorem ofUInt32_inj {m n : UInt32} : ofUInt32 m = ofUInt32 n ↔ m = n := by
  have hm := m.toNat_lt
  have hn := n.toNat_lt
  exact (ofNat_inj (by omega) (by omega)).trans UInt32.toNat_inj

@[simp] theorem ofOption_text_inj {o p : Option String} :
    ofOption text o = ofOption text p ↔ o = p := by
  cases o <;> cases p <;> simp [ofOption]

@[simp] theorem ofList_text_inj {xs ys : List String} :
    ofList text xs = ofList text ys ↔ xs = ys := by
  rw [ofList, ofList, table.injEq, List.map_inj_right fun _ _ => text.inj]
  exact and_iff_left rfl

theorem eq_of_stored {v w : Value}
    (h : (if v.isNil then none else some v) = if w.isNil then none else some w) : v = w := by
  cases v <;> cases w <;> simp_all [isNil]

end Value

theorem Table.eq_of_ofFields_eq {fields others : List (String × Value)}
    (hnames : fields.map Prod.fst = others.map Prod.fst) (hnodup : (fields.map Prod.fst).Nodup)
    (h : ofFields fields = ofFields others) : fields = others := by
  have hlength : fields.length = others.length := by simpa using congrArg List.length hnames
  refine List.ext_getElem hlength fun i hi hi' => ?_
  have hname : fields[i].1 = others[i].1 := by
    simpa [hi, hi'] using congrArg (·[i]?) hnames
  have hfield : (ofFields fields).get? fields[i].1 = _ := get?_ofFields hnodup (List.getElem_mem hi)
  have hother : (ofFields others).get? others[i].1 = _ :=
    get?_ofFields (hnames ▸ hnodup) (List.getElem_mem hi')
  rw [h, hname, hother] at hfield
  exact Prod.ext hname (Value.eq_of_stored hfield).symm

theorem Table.value_inj {t u : Table} : t.value = u.value ↔ t = u := by
  cases t
  cases u
  simp [value]

end PathPolicy.Script

namespace PathPolicy.Tracer
open Script

theorem TransportParameters.toScript_inj {p q : TransportParameters} :
    p.toScript = q.toScript ↔ p = q := by
  refine ⟨fun h => ?_, congrArg toScript⟩
  have hfields := Table.eq_of_ofFields_eq (by simp) (by simp) (Table.value_inj.mp h)
  cases p
  cases q
  simpa using hfields

theorem Perspective.name_inj {p q : Perspective} : p.name = q.name ↔ p = q := by
  cases p <;> cases q <;> decide

theorem Packet.eq_iff {p q : Packet} : p = q ↔ p.kind = q.kind ∧ p.number = q.number := by
  cases p
  cases q
  simp

theorem required_eq_ok {α : Type} {o : Option α} {name : String} {x : α}
    (h : required o name = .ok x) : o = some x := by
  cases o <;> cases h
  rfl

/-! ### Events -/

namespace Event

/-- The event without its round-trip times. -/
def withoutRoundTrip : Event → Event
  | updatedMetrics _ congestionWindow bytesInFlight packetsInFlight =>
    updatedMetrics ⟨0, 0, 0, 0, 0, 0⟩ congestionWindow bytesInFlight packetsInFlight
  | e => e

/-- A deadline is a whole number of microseconds, as 64 bits hold it. -/
def InMicros : Event → Prop
  | setLossTimer _ _ deadline => ∃ micros, deadline = .ofUnixMicros micros
  | _ => True

/-- The addresses of a call are those that the event tells, if it tells any. -/
def Under (localAddress remoteAddress : String) (e : Event) : Prop :=
  ∀ told, e.addresses? = some told → told = (localAddress, remoteAddress)

theorem arrived_eq_iff {e : Event} : e.arrived = e ↔ e.InMicros := by
  cases e with
  | setLossTimer timerType encryptionLevel deadline =>
    constructor
    · intro h
      simp only [arrived, setLossTimer.injEq, true_and] at h
      exact ⟨_, h.symm⟩
    · rintro ⟨micros, rfl⟩
      rw [arrived, Instant.unixMicros_ofUnixMicros]
  | _ => exact ⟨fun _ => trivial, fun _ => rfl⟩

variable {e₁ e₂ : Event} {localAddress remoteAddress : String}

theorem arrived_eq_of_fieldsToScript (hkind : e₁.kind = e₂.kind)
    (h₁ : e₁.Under localAddress remoteAddress) (h₂ : e₂.Under localAddress remoteAddress)
    (h : e₁.fieldsToScript = e₂.fieldsToScript) :
    e₁.arrived.withoutRoundTrip = e₂.arrived.withoutRoundTrip := by
  -- of the pairs of constructors only those of one kind are left
  cases e₁ <;> cases e₂ <;> cases hkind
  all_goals simp_all [fieldsToScript, textsToScript, Under, addresses?, arrived, withoutRoundTrip,
    TransportParameters.toScript_inj, Perspective.name_inj, Packet.eq_iff]

theorem under_of_none {e : Event} (h : e.addresses? = none) :
    e.Under localAddress remoteAddress := by
  intro told htold
  cases h.symm.trans htold

theorem under_of_ofFields {m : Message} {k : Kind} {e : Event} (h : ofFields m k = .ok e)
    (hlocal : m.localAddress = some localAddress) (hremote : m.remoteAddress = some remoteAddress) :
    e.Under localAddress remoteAddress := by
  intro told htold
  obtain ⟨rfl, -⟩ := (needing_ofFields m k).of_ok h
  cases e with
  | startedConnection a b c d =>
    rw [kind, ofFields, hlocal, hremote] at h
    obtain ⟨_, ⟨⟩, h⟩ := Json.bind_eq_ok.mp h
    obtain ⟨_, ⟨⟩, h⟩ := Json.bind_eq_ok.mp h
    obtain ⟨_, _, h⟩ := Json.bind_eq_ok.mp h
    obtain ⟨_, _, h⟩ := Json.bind_eq_ok.mp h
    cases h
    exact (Option.some.inj htold).symm
  | _ => exact under_of_none rfl told htold

theorem under_of_ofMessage {method : String} {m : Message} {id : UInt64} {e : Event}
    (h : Operation.ofMessage method m = .ok (.event id localAddress remoteAddress e)) :
    e.kind.name = method ∧ e.Under localAddress remoteAddress ∧ e.InMicros := by
  rw [Operation.ofMessage] at h
  split at h
  next =>
    obtain ⟨_, _, h⟩ := Json.bind_eq_ok.mp h
    obtain ⟨_, _, h⟩ := Json.bind_eq_ok.mp h
    obtain ⟨_, _, h⟩ := Json.bind_eq_ok.mp h
    cases h
  next =>
    obtain ⟨_, hevent, h⟩ := Json.bind_eq_ok.mp h
    obtain ⟨_, -, h⟩ := Json.bind_eq_ok.mp h
    obtain ⟨_, hlocal, h⟩ := Json.bind_eq_ok.mp h
    obtain ⟨_, hremote, h⟩ := Json.bind_eq_ok.mp h
    cases h
    obtain ⟨k, hk, hfields⟩ := Json.bind_eq_ok.mp hevent
    obtain ⟨hkind, harrived⟩ := (needing_ofFields m k).of_ok hfields
    refine ⟨?_, under_of_ofFields hfields ?_ ?_, arrived_eq_iff.mp harrived⟩
    · rw [hkind, Kind.ofName_eq_ok_iff.mp hk]
    · exact required_eq_ok hlocal
    · exact required_eq_ok hremote

/-- Two calls of one function, for events that do not contradict the addresses of the call and have
deadlines in whole microseconds, have the same arguments only if the tracing ids, the addresses and
the events are the same, the events in all but their round-trip times. Whatever event the daemon
reads from a message is such an event. -/
theorem arguments_determine_event :
    (∀ (id₁ id₂ : UInt64) (local₁ remote₁ local₂ remote₂ : String) (e₁ e₂ : Event),
      e₁.kind.name = e₂.kind.name → e₁.Under local₁ remote₁ → e₂.Under local₂ remote₂ →
      e₁.InMicros → e₂.InMicros →
      e₁.arguments id₁ local₁ remote₁ = e₂.arguments id₂ local₂ remote₂ →
      id₁ = id₂ ∧ local₁ = local₂ ∧ remote₁ = remote₂ ∧
        e₁.withoutRoundTrip = e₂.withoutRoundTrip) ∧
    ∀ (method : String) (m : Message) (id : UInt64) (localAddress remoteAddress : String)
      (e : Event), Operation.ofMessage method m = .ok (.event id localAddress remoteAddress e) →
      e.kind.name = method ∧ e.Under localAddress remoteAddress ∧ e.InMicros := by
  refine ⟨?_, fun _ _ _ _ _ _ => under_of_ofMessage⟩
  intro id₁ id₂ local₁ remote₁ local₂ remote₂ e₁ e₂ hkind hunder₁ hunder₂ hmicros₁ hmicros₂ h
  simp only [arguments, List.cons.injEq, Value.ofUInt64_inj, Value.text.injEq] at h
  obtain ⟨rfl, rfl, rfl, hfields⟩ := h
  have hevents := arrived_eq_of_fieldsToScript (Kind.name_inj.mp hkind) hunder₁ hunder₂ hfields
  rw [arrived_eq_iff.mpr hmicros₁, arrived_eq_iff.mpr hmicros₂] at hevents
  exact ⟨rfl, rfl, rfl, hevents⟩

/-- Round-trip times that agree in seconds, two sizes between which numbers become texts, and an
error that is absent or empty. -/
theorem arguments_determine_event_close_by :
    let rtt (micros : UInt64) : RoundTrip := ⟨micros, 0, 0, 0, 0, 0⟩
    let metrics (micros : UInt64) := updatedMetrics (rtt micros) 1 2 3
    let dropped (size : UInt64) := droppedPacket "Initial" size "dos"
    (metrics 9223372036854775808).arguments 7 "a" "b"
        = (metrics 9223372036854775809).arguments 7 "a" "b" ∧
      (metrics 9223372036854775808).withoutRoundTrip
        = (metrics 9223372036854775809).withoutRoundTrip ∧
      (dropped 9223372036854775807).arguments 7 "a" "b"
        ≠ (dropped 9223372036854775808).arguments 7 "a" "b" ∧
      (closedConnection none).arguments 7 "a" "b"
        ≠ (closedConnection (some "")).arguments 7 "a" "b" := by
  intro rtt metrics dropped
  obtain ⟨hdetermine, -⟩ := arguments_determine_event
  have hseconds : secondsOfMicros 9223372036854775808 = secondsOfMicros 9223372036854775809 :=
    congrArg Value.number (by decide +kernel)
  have hsame : (metrics 9223372036854775808).arguments 7 "a" "b"
      = (metrics 9223372036854775809).arguments 7 "a" "b" := by
    simp only [metrics, rtt, arguments, fieldsToScript, RoundTrip.toScript, hseconds]
  refine ⟨hsame, ?_, fun h => ?_, fun h => ?_⟩
  · exact (hdetermine 7 7 "a" "b" "a" "b" (metrics 9223372036854775808)
      (metrics 9223372036854775809) rfl (under_of_none rfl) (under_of_none rfl) trivial trivial
      hsame).2.2.2
  · have hdropped := (hdetermine 7 7 "a" "b" "a" "b" (dropped 9223372036854775807)
      (dropped 9223372036854775808) rfl (under_of_none rfl) (under_of_none rfl) trivial trivial
      h).2.2.2
    simp [dropped, withoutRoundTrip] at hdropped
  · have hclosed := (hdetermine 7 7 "a" "b" "a" "b" (closedConnection none)
      (closedConnection (some "")) rfl (under_of_none rfl) (under_of_none rfl) trivial trivial
      h).2.2.2
    simp [withoutRoundTrip] at hclosed

end Event
end PathPolicy.Tracer
