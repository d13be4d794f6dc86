import PathPolicy.Proofs.Client.Asking
import PathPolicy.Proofs.Client.Heard
import PathPolicy.Proofs.Vm.Tables

/-!
The policy sees a client's candidates unchanged. The wire form holds back of an instant and of a
latency only what the table form does not show, and the daemon tells the script of the paths as they
arrive.
-/
namespace PathPolicy.Client
open Json Script Daemon
open PathPolicy.Selector (Pair Method preferencesToScript)

variable {μ : Type}

/-! ### Arguments -/

theorem preferencesToScript_eq (preferences : Texts) : preferencesToScript preferences
    = .table [] (preferences.toList.map fun (name, s) => (name, .text s)) := by
  have hsorted : ((preferences.toList.map fun (name, s) => (name, Script.Value.text s)).map
      Prod.fst).Pairwise (· < ·) := by
    rw [List.map_map, List.pairwise_map]
    exact preferences.ordered_keys_toList.imp compare_lt_iff_lt.mp
  have hfilled : ∀ f ∈ preferences.toList.map fun (name, s) => (name, Script.Value.text s),
      f.2.isNil = false := by
    intro f hf
    obtain ⟨entry, -, rfl⟩ := List.mem_map.mp hf
    rfl
  rw [preferencesToScript, Table.ofFields_of_sorted hsorted hfilled]
  rfl

theorem listToScript_eq (paths : List Path) :
    Path.listToScript paths = .table (paths.map Path.toScript) [] := rfl

/-! ### Calls -/

namespace Selector

/-- An operation's request reaches the daemon: there is one, the channel is open, and the request is
within the limits of both sides. -/
def Reaches (limit : Nat) (c : Channel) (s : Selector) (o : Operation) : Prop :=
  match s.step o with
  | .silent _ _ => False
  | .ask _ method message _ =>
    c.closed = false ∧
      FitsBoth c limit
        (encode (Request.make c.nextId PathPolicy.Selector.service method.name message))

/-- The calls that a daemon makes while a client carries out an operation. -/
def heard (host : Host μ) (limit : Nat) (c : Channel) (d : State μ) (s : Selector) (o : Operation) :
    List Call :=
  (s.run (daemonPeer host.noting limit) c ⟨.opened, d.noting⟩ o).2.2.2.daemon.calls

theorem heard_of_reaches (host : Host μ) {limit : Nat} {c : Channel} (d : State μ) {s : Selector}
    {o : Operation} (hfinite : ∀ p ∈ o.paths, p.FiniteCoordinates) (h : s.Reaches limit c o) :
    ∃ pair, o.about s.pair = some pair ∧
      s.heard host limit c d o
        = ((o.served s.preferences).plan pair d.tables.sessions).call?.toList := by
  have htells := tells_step s hfinite
  simp only [Reaches] at h
  simp only [heard, run]
  generalize s.step o = step at h htells
  cases htells with
  | silent => exact h.elim
  | @ask t method message finish pair habout hmessageFinite hmessage hfinish =>
    obtain ⟨hopen, hfits⟩ := h
    have hserved := served_call host.noting hopen (p := ⟨.opened, d.noting⟩) rfl hfits
    have hparse := Request.parse_encode_make (PathPolicy.Selector.written_message message)
      (opens_record PathPolicy.Selector.Message.record message) c.nextId PathPolicy.Selector.service
      method.name
    have hrespond := respond_of_accepted d.tables hparse rfl
      ((ofRequest_make hmessageFinite _).trans hmessage)
    refine ⟨pair, habout, ?_⟩
    rw [hserved, calls_step]
    change [] ++ (respond d.tables _).call?.toList = _
    simp [hrespond]

end Selector

/-- A path with finite coordinates can be written, read back and decoded, and what comes of it has
the same table form, whatever its expiry and latencies. So the call that follows when a client brings
its candidates has exactly the client's preferences, each under its name, the two addresses, and a
sequence of the candidates' table forms, in their order and as often as they were given. -/
theorem policy_sees_candidates (host : Host μ) (limit : Nat) (c : Channel) (d : State μ)
    (s : Selector) :
    (∀ p : Path, p.FiniteCoordinates → ∃ w q, decode (encode p.toWire) = .ok w ∧
      Path.ofWire w = .ok q ∧ q.toScript = p.toScript) ∧
    ∀ paths : List Path, (∀ p ∈ paths, p.FiniteCoordinates) →
      (∀ pair, s.Reaches limit c (.initialise pair paths) →
        s.heard host limit c d (.initialise pair paths)
          = [⟨"panapi", "Initialize", [
              .table [] (s.preferences.toList.map fun (name, text) => (name, .text text)),
              .text pair.localAddress, .text pair.remoteAddress,
              .table (paths.map Path.toScript) []]⟩]) ∧
      (s.Reaches limit c (.refresh paths) → ∃ pair, s.pair = some pair ∧
        s.heard host limit c d (.refresh paths)
          = [⟨"panapi", "Refresh", [.text pair.localAddress, .text pair.remoteAddress,
              .table (paths.map Path.toScript) []]⟩]) := by
  refine ⟨fun p hp => ?_, fun paths hpaths => ⟨fun pair h => ?_, fun h => ?_⟩⟩
  · exact ⟨p.toWire, p.clamped, decode_encode (roundTrips_path hp.toWire) (by decide),
      Path.ofWire_toWire p, p.toScript_clamped⟩
  · obtain ⟨other, hother, hheard⟩ := Selector.heard_of_reaches host d
      (o := .initialise pair paths) hpaths h
    cases hother
    rw [hheard, ← listToScript_eq, ← Path.listToScript_clamped paths, ← preferencesToScript_eq]
    rfl
  · obtain ⟨pair, hpair, hheard⟩ := Selector.heard_of_reaches host d
      (o := .refresh paths) hpaths h
    refine ⟨pair, hpair, ?_⟩
    rw [hheard, ← listToScript_eq, ← Path.listToScript_clamped paths]
    rfl

/-- Two paths with one fingerprint; the first one's expiry and latency are beyond what the wire form
holds. -/
def extremePaths : List Path :=
  [⟨"e", "f", some ⟨0, [], [2 ^ 70], [], [], [], [], [⟨47.5, -8.25, ""⟩]⟩, "x", ⟨-1⟩⟩,
    ⟨"g", "h", none, "x", ⟨2 ^ 70⟩⟩]

def extremeTables : List Script.Value :=
  [.table [] [
      ("Destination", .text "f"),
      ("Expiry", .integer 0),
      ("Fingerprint", .text "x"),
      ("Metadata", .table [] [
        ("Bandwidth", .table [] []),
        ("Geo", .table [.table [] [
          ("Address", .text ""), ("Latitude", .number 47.5), ("Longitude", .number (-8.25))]] []),
        ("Interfaces", .table [] []),
        ("InternalHops", .table [] []),
        ("Latency", .table [.text "18446744073709551615"] []),
        ("LinkType", .table [] []),
        ("MTU", .integer 0),
        ("Notes", .table [] [])]),
      ("Source", .text "e")],
    .table [] [
      ("Destination", .text "h"),
      ("Expiry", .text "18446744073709551615"),
      ("Fingerprint", .text "x"),
      ("Source", .text "g")]]

theorem map_toScript_extremePaths : extremePaths.map Path.toScript = extremeTables := by rfl

theorem finiteCoordinates_extremePaths : ∀ p ∈ extremePaths, p.FiniteCoordinates := by
  have hlocation : Location.FiniteCoordinates ⟨47.5, -8.25, ""⟩ := ⟨by rfl, by rfl⟩
  simpa [Path.FiniteCoordinates, extremePaths] using hlocation

theorem policy_sees_candidates_sample :
    let s : Selector := { Selector.start with
      pair := some ⟨"a", "b"⟩, preferences := Std.ExtTreeMap.ofList [("k", "v"), ("j", "w")] }
    let c := Channel.opened 4096
    let d : State Unit := ⟨.start, ()⟩
    s.Reaches 4096 c (.initialise ⟨"c", "d"⟩ extremePaths) ∧
      s.heard raisingHost 4096 c d (.initialise ⟨"c", "d"⟩ extremePaths)
        = [⟨"panapi", "Initialize", [.table [] [("j", .text "w"), ("k", .text "v")], .text "c",
            .text "d", .table extremeTables []]⟩] ∧
      s.Reaches 4096 c (.refresh extremePaths) ∧
      s.heard raisingHost 4096 c d (.refresh extremePaths)
        = [⟨"panapi", "Refresh", [.text "a", .text "b", .table extremeTables []]⟩] := by
  intro s c d
  have hinitialise : s.Reaches 4096 c (.initialise ⟨"c", "d"⟩ extremePaths) :=
    ⟨rfl, by decide +kernel⟩
  have hrefresh : s.Reaches 4096 c (.refresh extremePaths) := ⟨rfl, by decide +kernel⟩
  have hpreferences : s.preferences.toList = [("j", "w"), ("k", "v")] := by rfl
  obtain ⟨-, hpaths⟩ := policy_sees_candidates raisingHost 4096 c d s
  obtain ⟨hfirst, hsecond⟩ := hpaths extremePaths finiteCoordinates_extremePaths
  rw [hpreferences, map_toScript_extremePaths] at hfirst
  rw [map_toScript_extremePaths] at hsecond
  obtain ⟨pair, hpair, hheard⟩ := hsecond hrefresh
  cases hpair
  exact ⟨hinitialise, hfirst ⟨"c", "d"⟩ hinitialise, hrefresh, hheard⟩

end PathPolicy.Client
