import PathPolicy.Proofs.Wire.Path

/-!
The wire form of a path is lossless both ways. A path can be told from its wire form, but for what
64 bits do not hold of its expiry and of its latencies, and a wire form from the path that it is
read as. Only a link type code without a meaning keeps a wire form from being read.
-/
namespace PathPolicy

/-! ### Nanoseconds in 64 bits -/

def Duration.longest : Nat := 2 ^ 64 - 1

def Duration.held (d : Nat) : Nat := min d longest

def Instant.held (t : Instant) : Instant := ⟨max 0 (min t.nanos Duration.longest)⟩

theorem Duration.toNat_nanos (d : Nat) : (nanos d).toNat = held d := by
  rw [nanos, held, Nat.min_comm d]
  exact UInt64.toNat_ofNat_of_lt (Nat.lt_of_le_of_lt (Nat.min_le_left _ d) (by decide))

theorem Instant.toNat_unixNanos (t : Instant) : (t.unixNanos.toNat : Int) = t.held.nanos := by
  have hheld : t.unixNanos.toNat = min t.nanos.toNat Duration.longest :=
    Duration.toNat_nanos t.nanos.toNat
  simp only [held]
  omega

theorem Metadata.clamped_eq (m : Metadata) :
    m.clamped = { m with latency := m.latency.map Duration.held } := by
  simp only [clamped, Duration.toNat_nanos]

theorem Path.clamped_eq (p : Path) :
    p.clamped = { p with
      metadata := p.metadata.map fun m => { m with latency := m.latency.map Duration.held }
      expiry := p.expiry.held } := by
  simp only [clamped, Instant.ofUnixNanos, Instant.toNat_unixNanos, ← Metadata.clamped_eq]

/-- What 64 bits hold of the expiry and of the latencies is all of them. -/
structure Path.InRange (p : Path) : Prop where
  epoch_le : 0 ≤ p.expiry.nanos
  expiry_le : p.expiry.nanos ≤ Duration.longest
  latency_le : ∀ m ∈ p.metadata, ∀ d ∈ m.latency, d ≤ Duration.longest

theorem Path.InRange.clamped_eq {p : Path} (h : p.InRange) : p.clamped = p := by
  have hmetadata : (p.metadata.map fun m => { m with latency := m.latency.map Duration.held })
      = p.metadata := by
    cases hm : p.metadata with
    | none => rfl
    | some m =>
      have hlatency : m.latency.map Duration.held = m.latency := by
        conv_rhs => rw [← List.map_id m.latency]
        exact List.map_congr_left fun d hd => Nat.min_eq_left (h.latency_le m hm d hd)
      rw [Option.map_some, hlatency]
  have hexpiry : p.expiry.held = p.expiry := by
    have hlow := h.epoch_le
    have hhigh := h.expiry_le
    rw [Instant.held, Int.min_eq_left hhigh, Int.max_eq_right hlow]
  rw [Path.clamped_eq, hmetadata, hexpiry]

/-! ### The two forms side by side -/

/-- The wire form has the same lists, in the same order: a latency as 64 bits hold it, a link type
by its code, and everything else as it is. -/
structure Metadata.SentAs (m : Metadata) (w : WireMetadata) : Prop where
  mtu : w.mtu = m.mtu
  interfaces : w.interfaces = m.interfaces
  latency : List.Forall₂ (fun d n => n.toNat = Duration.held d) m.latency w.latencyNanos
  bandwidth : w.bandwidth = m.bandwidth
  linkTypes : List.Forall₂ (fun l code => code.toNat = l.code) m.linkTypes w.linkTypes
  internalHops : w.internalHops = m.internalHops
  notes : w.notes = m.notes
  locations : w.locations = m.locations

/-- The wire form has metadata exactly if the path has some, and the expiry as 64 bits hold it. -/
structure Path.SentAs (p : Path) (w : WirePath) : Prop where
  source : w.source = p.source
  destination : w.destination = p.destination
  metadata : Option.Rel Metadata.SentAs p.metadata w.metadata
  fingerprint : w.fingerprint = p.fingerprint
  expiry : (w.expiryNanos.toNat : Int) = p.expiry.held.nanos

theorem Metadata.sentAs_toWire (m : Metadata) : m.SentAs m.toWire where
  mtu := rfl
  interfaces := rfl
  latency := List.forall₂_map_right_iff.mpr
    (List.forall₂_same.mpr fun d _ => Duration.toNat_nanos d)
  bandwidth := rfl
  linkTypes := List.forall₂_map_right_iff.mpr
    (List.forall₂_same.mpr fun l _ => by cases l <;> rfl)
  internalHops := rfl
  notes := rfl
  locations := rfl

theorem Path.sentAs_toWire (p : Path) : p.SentAs p.toWire where
  source := rfl
  destination := rfl
  metadata := by
    rw [toWire]
    cases p.metadata with
    | none => exact .none
    | some m => exact .some m.sentAs_toWire
  fingerprint := rfl
  expiry := p.expiry.toNat_unixNanos

/-! ### Reading -/

theorem LinkType.exists_ofWire {code : UInt8} (h : code ≤ 3) :
    ∃ l, LinkType.ofWire code = .ok l ∧ UInt8.ofNat l.code = code := by
  have hnat : code.toNat ≤ 3 := h
  rw [← UInt8.ofNat_toNat (x := code)]
  generalize code.toNat = n at hnat
  interval_cases n
  · exact ⟨unset, rfl, rfl⟩
  · exact ⟨direct, rfl, rfl⟩
  · exact ⟨multiHop, rfl, rfl⟩
  · exact ⟨openNet, rfl, rfl⟩

theorem LinkType.ofCode?_of_lt {n : Nat} (h : 3 < n) : ofCode? n = none := by
  obtain ⟨k, rfl⟩ := Nat.exists_eq_add_of_le' h
  rfl

theorem LinkType.ofWire_of_lt {code : UInt8} (h : 3 < code) :
    LinkType.ofWire code = .error
      (.badRequest ("unknown link type code: " ++ String.ofList (Decimal.ofNat code.toNat))) := by
  have hnat : 3 < code.toNat := h
  rw [ofWire, ofCode?_of_lt hnat]

section MapM
variable {α β ε : Type} {f : α → Except ε β}

theorem exists_mapM {g : β → α} {xs : List α} (h : ∀ x ∈ xs, ∃ y, f x = .ok y ∧ g y = x) :
    ∃ ys, xs.mapM f = .ok ys ∧ ys.map g = xs := by
  induction xs with
  | nil => exact ⟨[], rfl, rfl⟩
  | cons x xs ih =>
    obtain ⟨y, hy, hx⟩ := h x List.mem_cons_self
    obtain ⟨ys, hys, hxs⟩ := ih fun x hx => h x (List.mem_cons_of_mem _ hx)
    refine ⟨y :: ys, ?_, by rw [List.map_cons, hx, hxs]⟩
    rw [List.mapM_cons, hy, hys]
    rfl

/-- The first element that is not read decides the error. -/
theorem mapM_of_find? {bad : α → Bool} (hgood : ∀ x, bad x = false → ∃ y, f x = .ok y)
    {xs : List α} {x : α} (hfind : xs.find? bad = some x) {e : ε} (he : f x = .error e) :
    xs.mapM f = .error e := by
  induction xs with
  | nil => cases hfind
  | cons first xs ih =>
    rw [List.mapM_cons]
    cases hbad : bad first with
    | true =>
      rw [List.find?_cons_of_pos hbad] at hfind
      cases hfind
      rw [he]
      rfl
    | false =>
      rw [List.find?_cons_of_neg (by simp [hbad])] at hfind
      obtain ⟨y, hy⟩ := hgood first hbad
      rw [hy, ih hfind]
      rfl

theorem exists_of_mem_mapM {xs : List α} {ys : List β} (h : xs.mapM f = .ok ys) {y : β}
    (hy : y ∈ ys) : ∃ x ∈ xs, f x = .ok y := by
  induction xs generalizing ys with
  | nil =>
    cases h
    cases hy
  | cons x xs ih =>
    rw [List.mapM_cons] at h
    obtain ⟨z, hz, hrest⟩ := Json.bind_eq_ok.mp h
    obtain ⟨zs, hzs, hys⟩ := Json.bind_eq_ok.mp hrest
    cases hys
    rcases List.mem_cons.mp hy with rfl | hy
    · exact ⟨x, List.mem_cons_self, hz⟩
    · obtain ⟨x', hx', hfx'⟩ := ih hzs hy
      exact ⟨x', List.mem_cons_of_mem x hx', hfx'⟩

end MapM

theorem Metadata.exists_ofWire {w : WireMetadata} (h : ∀ code ∈ w.linkTypes, code ≤ 3) :
    ∃ m, Metadata.ofWire w = .ok m ∧ m.toWire = w ∧ ∀ d ∈ m.latency, d ≤ Duration.longest := by
  obtain ⟨linkTypes, hread, hwritten⟩ :=
    exists_mapM fun code hcode => LinkType.exists_ofWire (h code hcode)
  simp only [Metadata.ofWire, hread]
  refine ⟨_, rfl, ?_, ?_⟩
  · simp [toWire, hwritten, Function.comp_def, Duration.nanos_toNat]
  · intro d hd
    obtain ⟨n, -, rfl⟩ := List.mem_map.mp hd
    exact Nat.le_sub_one_of_lt n.toNat_lt

theorem Path.exists_ofWire {w : WirePath} (h : ∀ m ∈ w.metadata, ∀ code ∈ m.linkTypes, code ≤ 3) :
    ∃ p, Path.ofWire w = .ok p ∧ p.toWire = w ∧ p.InRange := by
  have hexpiry : (w.expiryNanos.toNat : Int) ≤ Duration.longest :=
    Int.ofNat_le.mpr (Nat.le_sub_one_of_lt w.expiryNanos.toNat_lt)
  cases hw : w.metadata with
  | none =>
    simp only [Path.ofWire, hw]
    refine ⟨_, rfl, ?_, ⟨Int.natCast_nonneg _, hexpiry, ?_⟩⟩
    · simp [toWire, Instant.unixNanos_ofUnixNanos, ← hw]
    · rintro m ⟨⟩
  | some wire =>
    obtain ⟨m, hread, hwritten, hlatency⟩ := Metadata.exists_ofWire (h wire hw)
    simp only [Path.ofWire, hw, Option.mapM_some, hread]
    refine ⟨_, rfl, ?_, ⟨Int.natCast_nonneg _, hexpiry, ?_⟩⟩
    · simp [toWire, Instant.unixNanos_ofUnixNanos, hwritten, ← hw]
    · rintro m ⟨⟩
      exact hlatency

theorem Path.ofWire_of_find? {w : WirePath} {m : WireMetadata} (hm : w.metadata = some m)
    {code : UInt8} (hcode : m.linkTypes.find? (3 < ·) = some code) :
    Path.ofWire w = .error
      (.badRequest ("unknown link type code: " ++ String.ofList (Decimal.ofNat code.toNat))) := by
  have hknown : ∀ c : UInt8, decide (3 < c) = false → ∃ l, LinkType.ofWire c = .ok l := by
    intro c hc
    obtain ⟨l, hl, -⟩ := LinkType.exists_ofWire (UInt8.not_lt.mp (of_decide_eq_false hc))
    exact ⟨l, hl⟩
  have hlt : 3 < code := by simpa using List.find?_some hcode
  have hunknown := LinkType.ofWire_of_lt hlt
  simp only [Path.ofWire, hm, Option.mapM_some, Metadata.ofWire,
    mapM_of_find? hknown hcode hunknown]
  rfl

theorem Path.inRange_of_ofWire {w : WirePath} {p : Path} (h : Path.ofWire w = .ok p) :
    p.InRange := by
  have hcodes : ∀ m ∈ w.metadata, ∀ code ∈ m.linkTypes, code ≤ 3 := by
    intro m hm code hcode
    by_contra hbad
    have hsome : (m.linkTypes.find? (3 < ·)).isSome :=
      List.find?_isSome.mpr ⟨code, hcode, decide_eq_true (UInt8.not_le.mp hbad)⟩
    obtain ⟨first, hfirst⟩ := Option.isSome_iff_exists.mp hsome
    rw [Path.ofWire_of_find? hm hfirst] at h
    cases h
  obtain ⟨q, hq, -, hrange⟩ := Path.exists_ofWire hcodes
  rw [h] at hq
  cases hq
  exact hrange

/-! ### Both ways -/

/-- Every path can be sent, and arrives as it was, but for what 64 bits do not hold of its expiry
and of its latencies; if they hold all of it, it arrives unchanged. A wire form cannot be read
exactly if its metadata have a link type code above 3, and then the fault names the first such code;
every other one is read as a path that is sent as this wire form. Either way both forms have metadata
or neither has, and the same lists, element by element. -/
theorem wire_form_lossless :
    (∀ p : Path, p.SentAs p.toWire ∧ Path.ofWire p.toWire = .ok { p with
      metadata := p.metadata.map fun m => { m with latency := m.latency.map Duration.held }
      expiry := p.expiry.held }) ∧
    (∀ p : Path, p.InRange → Path.ofWire p.toWire = .ok p) ∧
    ∀ w : WirePath,
      ((∃ e, Path.ofWire w = .error e) ↔ ∃ m ∈ w.metadata, ∃ code ∈ m.linkTypes, 3 < code) ∧
      (∀ m ∈ w.metadata, ∀ code, m.linkTypes.find? (3 < ·) = some code →
        Path.ofWire w = .error (.badRequest
          ("unknown link type code: " ++ String.ofList (Decimal.ofNat code.toNat)))) ∧
      ((∀ m ∈ w.metadata, ∀ code ∈ m.linkTypes, code ≤ 3) →
        ∃ p, Path.ofWire w = .ok p ∧ p.toWire = w ∧ p.InRange ∧ p.SentAs w) := by
  refine ⟨fun p => ⟨p.sentAs_toWire, ?_⟩, fun p h => ?_, fun w => ⟨⟨?_, ?_⟩, ?_, ?_⟩⟩
  · rw [Path.ofWire_toWire, Path.clamped_eq]
  · rw [Path.ofWire_toWire, h.clamped_eq]
  · rintro ⟨e, he⟩
    by_contra hnone
    have hknown : ∀ m ∈ w.metadata, ∀ code ∈ m.linkTypes, code ≤ 3 := fun m hm code hcode =>
      UInt8.not_lt.mp fun hlt => hnone ⟨m, hm, code, hcode, hlt⟩
    obtain ⟨p, hp, -⟩ := Path.exists_ofWire hknown
    cases he.symm.trans hp
  · rintro ⟨m, hm, code, hcode, hlt⟩
    have hsome : (m.linkTypes.find? (3 < ·)).isSome :=
      List.find?_isSome.mpr ⟨code, hcode, decide_eq_true hlt⟩
    obtain ⟨first, hfirst⟩ := Option.isSome_iff_exists.mp hsome
    exact ⟨_, Path.ofWire_of_find? hm hfirst⟩
  · exact fun m hm code hcode => Path.ofWire_of_find? hm hcode
  · intro hknown
    obtain ⟨p, hp, hwritten, hrange⟩ := Path.exists_ofWire hknown
    exact ⟨p, hp, hwritten, hrange, hwritten ▸ p.sentAs_toWire⟩

def sampleWire (codes : List UInt8) : WirePath where
  source := "1-a"
  destination := "2-b"
  metadata := some ⟨1500, [], [UInt64.ofNat Duration.longest], [], codes, [], [""], []⟩
  fingerprint := "x"
  expiryNanos := UInt64.ofNat Duration.longest

/-- The last instant and the longest latency that 64 bits hold, two unknown codes behind a known
one, and all codes that are known. -/
theorem wire_form_lossless_sample :
    let p : Path := ⟨"", "", some ⟨0, [], [Duration.longest], [], [], [], [], []⟩, "",
      ⟨Duration.longest⟩⟩
    p.InRange ∧ Path.ofWire p.toWire = .ok p ∧
      Path.ofWire (sampleWire [2, 9, 0, 7]) = .error (.badRequest "unknown link type code: 9") ∧
      ∃ q, Path.ofWire (sampleWire [3, 0, 1, 2]) = .ok q ∧ q.toWire = sampleWire [3, 0, 1, 2] := by
  intro p
  have hlatency : ∀ m ∈ p.metadata, ∀ d ∈ m.latency, d ≤ Duration.longest := by
    intro m hm d hd
    obtain rfl := Option.some.inj hm
    exact Nat.le_of_eq (List.mem_singleton.mp hd)
  have hrange : p.InRange := ⟨Int.natCast_nonneg _, Int.le_refl _, hlatency⟩
  obtain ⟨-, hpath, hwire⟩ := wire_form_lossless
  obtain ⟨-, hunknown, -⟩ := hwire (sampleWire [2, 9, 0, 7])
  obtain ⟨-, -, hknown⟩ := hwire (sampleWire [3, 0, 1, 2])
  have hcodes : ∀ code ∈ [3, 0, 1, 2], code ≤ (3 : UInt8) := by simp
  obtain ⟨q, hq, hwritten, -⟩ := hknown fun m hm => Option.some.inj hm ▸ hcodes
  exact ⟨hrange, hpath p hrange, hunknown _ rfl 9 rfl, q, hq, hwritten⟩

end PathPolicy
