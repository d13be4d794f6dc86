import PathPolicy.Path.Table
import PathPolicy.Proofs.Wire.Message
import PathPolicy.Selector.Session

/-!
What becomes of a path on its way. The wire form holds instants and latencies in 64 bits; all else
arrives as it was sent. The table form of a path holds them in the same 64 bits, so that a script sees
no difference.
-/
namespace PathPolicy
open Json

def Metadata.clamped (m : Metadata) : Metadata :=
  { m with latency := m.latency.map fun d => (Duration.nanos d).toNat }

/-- The path as it arrives: its expiry, too, is held within 64 bits of nanoseconds since the
epoch. -/
def Path.clamped (p : Path) : Path :=
  { p with
    metadata := p.metadata.map Metadata.clamped
    expiry := .ofUnixNanos p.expiry.unixNanos }

theorem LinkType.ofWire_code (l : LinkType) : LinkType.ofWire (UInt8.ofNat l.code) = .ok l := by
  cases l <;> rfl

theorem mapM_map_ok {α β γ ε : Type} {f : α → β} {g : β → Except ε γ} {h : α → γ} {xs : List α}
    (hg : ∀ x ∈ xs, g (f x) = .ok (h x)) : (xs.map f).mapM g = .ok (xs.map h) := by
  induction xs with
  | nil => rfl
  | cons x xs ih =>
    simp only [List.map_cons, List.mapM_cons, hg x List.mem_cons_self,
      ih fun y hy => hg y (List.mem_cons_of_mem x hy), bind, Except.bind]
    rfl

theorem mapM_map_self {α β ε : Type} {f : α → β} {g : β → Except ε α} (xs : List α)
    (hg : ∀ x, g (f x) = .ok x) : (xs.map f).mapM g = .ok xs := by
  have hmap : (xs.map f).mapM g = .ok (xs.map id) := mapM_map_ok fun x _ => hg x
  rwa [List.map_id] at hmap

theorem Metadata.ofWire_toWire (m : Metadata) : Metadata.ofWire m.toWire = .ok m.clamped := by
  have hlinks : m.toWire.linkTypes.mapM LinkType.ofWire = .ok m.linkTypes :=
    mapM_map_self m.linkTypes LinkType.ofWire_code
  simp only [Metadata.ofWire, hlinks, bind, Except.bind]
  simp [Metadata.clamped, Metadata.toWire, pure, Except.pure]

theorem Path.ofWire_toWire (p : Path) : Path.ofWire p.toWire = .ok p.clamped := by
  obtain ⟨source, destination, metadata, fingerprint, expiry⟩ := p
  cases metadata with
  | none => rfl
  | some m =>
    simp only [Path.ofWire, Path.toWire, Option.map_some, Option.mapM_some, Metadata.ofWire_toWire]
    rfl

def Path.FiniteCoordinates (p : Path) : Prop :=
  ∀ m ∈ p.metadata, ∀ l ∈ m.locations, l.FiniteCoordinates

theorem Path.FiniteCoordinates.toWire {p : Path} (h : p.FiniteCoordinates) :
    p.toWire.FiniteCoordinates := by
  intro w hw
  obtain ⟨m, hm, rfl⟩ := Option.map_eq_some_iff.mp hw
  exact h m hm

theorem Path.FiniteCoordinates.of_toWire {p : Path} (h : p.toWire.FiniteCoordinates) :
    p.FiniteCoordinates :=
  fun m hm => h m.toWire (Option.mem_map_of_mem Metadata.toWire hm)

/-! ### The table form of what arrives -/

theorem Duration.nanos_toNat (n : UInt64) : nanos n.toNat = n := by
  rw [nanos, Nat.min_eq_right (Nat.le_sub_one_of_lt n.toNat_lt), UInt64.ofNat_toNat]

theorem Instant.unixNanos_ofUnixNanos (n : UInt64) : (ofUnixNanos n).unixNanos = n :=
  Duration.nanos_toNat n

theorem Metadata.toScript_clamped (m : Metadata) : m.clamped.toScript = m.toScript := by
  simp [toScript, clamped, Script.Value.ofList, Duration.nanos_toNat, Function.comp_def]

theorem Path.toScript_clamped (p : Path) : p.clamped.toScript = p.toScript := by
  have hmetadata : Script.Value.ofOption Metadata.toScript p.clamped.metadata
      = Script.Value.ofOption Metadata.toScript p.metadata := by
    cases h : p.metadata with
    | none => simp [clamped, h]
    | some m => simp [clamped, h, Script.Value.ofOption, Metadata.toScript_clamped]
  rw [toScript, toScript, hmetadata]
  simp only [clamped, Instant.unixNanos_ofUnixNanos]

theorem Path.listToScript_clamped (paths : List Path) :
    listToScript (paths.map clamped) = listToScript paths := by
  simp [listToScript, Script.Value.ofList, toScript_clamped]

/-! ### Candidates by fingerprint -/

theorem Selector.PathTable.getElem?_ofList_clamped (paths : List Path) (fp : Fingerprint) :
    (PathTable.ofList (paths.map Path.clamped))[fp]?
      = ((PathTable.ofList paths)[fp]?).map Path.clamped := by
  rw [getElem?_ofList, getElem?_ofList, ← List.map_reverse, List.find?_map]
  rfl

end PathPolicy
