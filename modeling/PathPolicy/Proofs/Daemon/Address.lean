import PathPolicy.Envelope
import PathPolicy.Proofs.Json.Fields
import PathPolicy.Proofs.Json.Reading

/-!
The id under which a refused body is answered. Where the body's text is an object with exactly one
id that is an unsigned number, that one is found, whatever else the object holds.
-/
namespace PathPolicy.Json

/-! ### The members of an object's text -/

def numberAt? (text : Bytes) : Option Number :=
  match skipSpace text with
  | [] => none
  | b :: rest =>
    if b = 45 || isDigit b then (readNumber (b :: rest)).toOption.map Prod.fst else none

/-- The names in an object's text, and the numbers behind them where there are numbers. -/
abbrev Entries := List (String × Option Number)

def appendEntry (steps : Nat) (entries : Entries) (name : String) (text : Bytes) :
    Except Failure (Entries × Bytes) := do
  let text ← readColon text
  let rest ← skipValue steps text
  return (entries ++ [(name, numberAt? text)], rest)

/-- The members of an object in the order of its text, also those of one name. -/
def readEntries (budget : Budget) (text : Bytes) : Except Failure (Entries × Bytes) := do
  let (b, rest) ← atValue text
  if b = 123 then
    closing closeObject
      (readMembers (appendEntry budget.steps) budget.steps budget.steps true [] rest)
  else refuse "a map" budget (b :: rest)

def entriesOf (body : Bytes) : Except Error Entries := readWhole readEntries body

theorem length_nextMember {first : Bool} {text next : Bytes}
    (h : nextMember first text = .ok (true, next)) : next.tail.length < text.length := by
  cases first with
  | true =>
    obtain ⟨hspace, quoted, rfl⟩ := nextMember_first h
    exact length_lt_of_skipSpace hspace
  | false =>
    obtain ⟨more, quoted, hcomma, hspace, rfl⟩ := nextMember_later h
    exact Nat.lt_trans (length_lt_of_skipSpace hspace) (length_lt_of_skipSpace hcomma)

/-- Members are read to the same places whatever is done with them, and as many steps as there are
bytes suffice for that. -/
theorem readMembers_simulate {σ τ : Type} {R : σ → τ → Prop}
    {step : σ → String → Bytes → Except Failure (σ × Bytes)}
    {other : τ → String → Bytes → Except Failure (τ × Bytes)} {bound : Nat}
    (hstep : PassesMembers step)
    (hother : ∀ s t name text s' rest, R s t → text.length ≤ bound →
      step s name text = .ok (s', rest) → ∃ t', other t name text = .ok (t', rest) ∧ R s' t')
    {steps k n : Nat} {first : Bool} {s s' : σ} {t : τ} {text mid : Bytes} (hR : R s t)
    (h : readMembers step steps k first s text = .ok (s', mid)) (hn : text.length < n)
    (hbound : text.length ≤ bound) :
    ∃ t', readMembers other steps n first t text = .ok (t', mid) ∧ R s' t' := by
  induction k generalizing first s t text n with
  | zero => cases h
  | succ k ih =>
    obtain ⟨n, rfl⟩ := Nat.exists_eq_add_of_le' (Nat.lt_of_le_of_lt (Nat.zero_le _) hn)
    obtain ⟨⟨more, next⟩, hnext, h⟩ := bind_eq_ok.mp h
    cases more with
    | false =>
      cases h
      exact ⟨t, readMembers_end hnext, hR⟩
    | true =>
      obtain ⟨⟨name, colon⟩, hname, h⟩ := bind_eq_ok.mp h
      obtain ⟨⟨u, after⟩, hu, hmore⟩ := bind_eq_ok.mp h
      obtain ⟨inner, hcolon, hpasses⟩ := hstep s name colon u after hu
      have hnext_lt := length_nextMember hnext
      have hname_lt := (skipQuoted_of_readText hname).1
      have hcolon_lt := length_lt_of_skipSpace (skipSpace_of_readColon hcolon)
      have hvalue_lt := hpasses.shorter
      obtain ⟨t', ht', hR'⟩ := hother s t name colon u after hR (by omega) hu
      obtain ⟨last, hlast, hRlast⟩ := ih hR' hmore (n := n) (by omega) (by omega)
      exact ⟨last, (readMembers_next hnext hname ht').trans hlast, hRlast⟩

theorem appendEntry_of_passes {steps : Nat} {entries : Entries} {name : String}
    {text inner rest : Bytes} (hcolon : readColon text = .ok inner) (hpasses : Passes inner rest)
    (hsteps : text.length ≤ steps) :
    appendEntry steps entries name text = .ok (entries ++ [(name, numberAt? inner)], rest) := by
  have hle := Nat.le_of_lt (length_lt_of_skipSpace (skipSpace_of_readColon hcolon))
  have hfuel : inner.length ≤ steps + rest.length :=
    Nat.le_trans (Nat.le_trans hle hsteps) (Nat.le_add_right _ _)
  simp only [appendEntry, hcolon, hpasses.skipValue hfuel, bind, Except.bind]
  rfl

theorem readMembers_of_readTree {embedded : Bytes → Except Cause Value}
    {item : Bytes → Except Failure (Value × Bytes)}
    (hitem : ∀ text v rest, item text = .ok (v, rest) → Passes text rest) {budget : Budget}
    {text rest : Bytes} {v : Value} (h : readTree embedded item budget text = .ok (v, rest))
    (hsteps : text.length < budget.steps) :
    ∃ entries mid, readMembers (appendEntry budget.steps) budget.steps budget.steps true [] text
      = .ok (entries, mid) ∧ closeObject mid = .ok rest := by
  obtain ⟨depth, steps⟩ := budget
  obtain ⟨steps, rfl⟩ := Nat.exists_eq_add_of_le' (Nat.lt_of_le_of_lt (Nat.zero_le _) hsteps)
  obtain ⟨⟨more, next⟩, hnext, h⟩ := bind_eq_ok.mp h
  cases more with
  | false =>
    obtain ⟨rest', hclose, h⟩ := bind_eq_ok.mp h
    cases h
    exact ⟨[], next, readMembers_end hnext, hclose⟩
  | true =>
    obtain ⟨⟨name, colon⟩, hname, h⟩ := bind_eq_ok.mp h
    obtain ⟨inner, hcolon, hvalue⟩ := bind_eq_ok.mp h
    have hnext_lt := length_nextMember hnext
    have hname_lt := (skipQuoted_of_readText hname).1
    have hcolon_lt := length_lt_of_skipSpace (skipSpace_of_readColon hcolon)
    dsimp only at hvalue hsteps
    -- an object that stands for another value has one member, and the others any number
    split at hvalue
    · obtain ⟨after, hpasses, hclose⟩ := passes_of_readStandIn hvalue
      have hentry := @appendEntry_of_passes (steps + 1) [] name colon inner after hcolon hpasses
        (by omega)
      obtain ⟨steps, rfl⟩ := Nat.exists_eq_add_of_le' (show 1 ≤ steps by omega)
      have hlast : nextMember false after = .ok (false, 125 :: rest) := by
        simp [nextMember, skipSpace_of_closeObject hclose]
      refine ⟨_, 125 :: rest, (readMembers_next hnext hname hentry).trans (readMembers_end hlast), ?_⟩
      simp [closeObject, skipSpace_cons (b := 125) (by decide)]
    · obtain ⟨⟨value, after⟩, hfirst, hvalue⟩ := bind_eq_ok.mp hvalue
      obtain ⟨⟨members, mid⟩, hmembers, hvalue⟩ := bind_eq_ok.mp hvalue
      obtain ⟨rest', hclose, hvalue⟩ := bind_eq_ok.mp hvalue
      cases hvalue
      have hpasses := hitem inner value after hfirst
      have hvalue_lt := hpasses.shorter
      have hentry := @appendEntry_of_passes (steps + 1) [] name colon inner after hcolon hpasses
        (by omega)
      -- the states need not be related; what counts is where each member ends
      have hlater : ∀ (s : List (String × Value)) (t : Entries) (name : String) (text : Bytes)
          (s' : List (String × Value)) (rest : Bytes), True → text.length ≤ steps →
          insertMember item s name text = .ok (s', rest) →
          ∃ t', appendEntry (steps + 1) t name text = .ok (t', rest) ∧ True := by
        intro s t name text s' rest _ hle hinsert
        obtain ⟨inner, hcolon, hpasses⟩ :=
          passesMembers_insertMember hitem s name text s' rest hinsert
        exact ⟨_, appendEntry_of_passes hcolon hpasses (Nat.le_succ_of_le hle), trivial⟩
      have hafter : after.length < steps := by omega
      obtain ⟨entries, hentries, -⟩ := readMembers_simulate (passesMembers_insertMember hitem) hlater
        trivial hmembers hafter (Nat.le_of_lt hafter)
      exact ⟨entries, mid, (readMembers_next hnext hname hentry).trans hentries, hclose⟩

theorem readTree_of_object {embedded : Bytes → Except Cause Value} {steps depth : Nat}
    {text rest : Bytes} {members : List (String × Value)}
    (h : readValue embedded steps depth text = .ok (.object members, rest)) :
    ∃ d inside, skipSpace text = 123 :: inside ∧
      readTree embedded (readValue embedded steps d) ⟨d, steps⟩ inside
        = .ok (.object members, rest) := by
  rw [readValue] at h
  obtain ⟨⟨b, more⟩, hvalue, h⟩ := bind_eq_ok.mp h
  have hspace := skipSpace_of_atValue hvalue
  dsimp only at h
  split at h
  · obtain ⟨rest', -, h⟩ := bind_eq_ok.mp h
    cases h
  split at h
  · obtain ⟨rest', -, h⟩ := bind_eq_ok.mp h
    cases h
  split at h
  · obtain ⟨rest', -, h⟩ := bind_eq_ok.mp h
    cases h
  split at h
  · obtain ⟨rest', -, h⟩ := bind_eq_ok.mp h
    cases h
  split at h
  · obtain ⟨rest', -, h⟩ := bind_eq_ok.mp h
    cases h
  split at h
  · rename_i hb
    cases depth with
    | zero => cases h
    | succ depth =>
      dsimp only at h
      split at h
      · obtain ⟨items, -, h⟩ := bind_eq_ok.mp h
        obtain ⟨rest', -, h⟩ := bind_eq_ok.mp h
        cases h
      · rename_i hlist
        have hobject : b = 123 := by simpa [hlist] using hb
        exact ⟨depth, more, hobject ▸ hspace, h⟩
  · cases h

theorem exists_entriesOf {body : Bytes} {members : List (String × Value)}
    (h : decode body = .ok (Value.object members)) : ∃ entries, entriesOf body = .ok entries := by
  obtain ⟨rest, hread, hend⟩ := readWhole_eq_ok.mp h
  obtain ⟨depth, inside, hspace, htree⟩ := readTree_of_object hread
  have hinside := length_lt_of_skipSpace hspace
  obtain ⟨entries, mid, hentries, hclose⟩ :=
    readMembers_of_readTree (fun _ _ _ => passes_of_readValue) htree (Nat.lt_succ_of_lt hinside)
  have hvalue : atValue body = .ok (123, inside) := by simp [atValue, hspace]
  refine ⟨entries, readWhole_eq_ok.mpr ⟨rest, ?_, hend⟩⟩
  change readMembers (appendEntry (body.length + 1)) (body.length + 1) (body.length + 1) true []
    inside = _ at hentries
  simp only [readEntries, hvalue, bind, Except.bind, if_true, Budget.ofText, hentries, closing, hclose]
  rfl

end PathPolicy.Json

namespace PathPolicy
open Json

/-- What stands behind the name of the id, as often as it is given. -/
def Address.ids (entries : Entries) : List (Option Number) :=
  (entries.filter fun e => e.1 = "id").map Prod.snd

theorem numberAt?_eq_some {text : Bytes} {x : Number} (h : numberAt? text = some x) :
    ∃ b more rest, skipSpace text = b :: more ∧ (b = 45 || isDigit b) = true ∧
      readNumber (b :: more) = .ok (x, rest) := by
  unfold numberAt? at h
  split at h
  · cases h
  · rename_i b more hspace
    split at h
    · rename_i hb
      cases hread : readNumber (b :: more) with
      | error f =>
        rw [hread] at h
        cases h
      | ok result =>
        obtain ⟨y, rest⟩ := result
        rw [hread] at h
        cases h
        exact ⟨b, more, rest, hspace, hb, hread⟩
    · cases h

theorem rest_of_skipValue {steps : Nat} {text more rest rest' : Bytes} {b : UInt8} {x : Number}
    (hspace : skipSpace text = b :: more) (hb : (b = 45 || isDigit b) = true)
    (hread : readNumber (b :: more) = .ok (x, rest)) (hskip : skipValue steps text = .ok rest') :
    rest' = rest := by
  have hnumber := (skipNumber_of_readNumber hread).1
  cases steps with
  | zero => cases hskip
  | succ steps =>
    rw [skipValue, Nat.mul_succ, skipIn_number hspace (by simpa using hb) hnumber, skipAfter] at hskip
    cases hskip
    rfl

theorem readMember_other {budget : Budget} {state : List String × Address} {name : String}
    (h : name ≠ "id") (text : Bytes) :
    Address.record.readMember budget state name text = do
      let text ← readColon text
      return (state, ← skipValue budget.steps text) := by
  have hnone : (Address.record.fields.find? fun f => f.name = name) = none := by
    simp [Address.record, Field.of, h.symm]
  simp only [Record.readMember, hnone]
  rfl

theorem readMember_id {budget : Budget} {a : Address} {text inner rest : Bytes} {id : UInt64}
    (hcolon : readColon text = .ok inner) (hid : numberAt? inner = some (.natural id))
    (hskip : skipValue budget.steps inner = .ok rest) :
    Address.record.readMember budget ([], a) "id" text = .ok ((["id"], ⟨id⟩), rest) := by
  obtain ⟨b, more, rest', hspace, hb, hread⟩ := numberAt?_eq_some hid
  cases rest_of_skipValue hspace hb hread hskip
  have hvalue : atValue inner = .ok (b, more) := by simp [atValue, hspace]
  have htake : (Codable.read budget inner : Except Failure (UInt64 × Bytes)) = .ok (id, rest) := by
    simp only [Codable.read, Numeric.read, hvalue, hb, hread, if_true, bind, Except.bind]
    rw [take_natural id.toNat_lt UInt64.ofNat_toNat]
    rfl
  simp [Record.readMember, Address.record, Field.of, hcolon, htake, bind, Except.bind, Except.map,
    pure, Except.pure]

theorem readMembers_address (budget : Budget) {k : Nat} {first : Bool} {entries final : Entries}
    {text mid : Bytes}
    (h : readMembers (appendEntry budget.steps) budget.steps k first entries text
      = .ok (final, mid)) :
    ∃ more, final = entries ++ more ∧
      (Address.ids more = [] → ∀ state,
        readMembers (Address.record.readMember budget) budget.steps k first state text
          = .ok (state, mid)) ∧
      ∀ id, Address.ids more = [some (.natural id)] → ∀ a,
        readMembers (Address.record.readMember budget) budget.steps k first ([], a) text
          = .ok ((["id"], ⟨id⟩), mid) := by
  induction k generalizing first entries text with
  | zero => cases h
  | succ k ih =>
    obtain ⟨⟨more, next⟩, hnext, h⟩ := bind_eq_ok.mp h
    cases more with
    | false =>
      cases h
      refine ⟨[], (List.append_nil _).symm, fun _ state => readMembers_end hnext, ?_⟩
      rintro id ⟨⟩
    | true =>
      obtain ⟨⟨name, colon⟩, hname, h⟩ := bind_eq_ok.mp h
      obtain ⟨⟨u, after⟩, hu, hlater⟩ := bind_eq_ok.mp h
      obtain ⟨inner, hcolon, hu⟩ := bind_eq_ok.mp hu
      obtain ⟨rest, hskip, hu⟩ := bind_eq_ok.mp hu
      cases hu
      obtain ⟨more, hfinal, hnone, hone⟩ := ih hlater
      refine ⟨(name, numberAt? inner) :: more, by simp [hfinal], ?_⟩
      -- a second member for the id is refused, so that there is none behind the first
      by_cases hid : name = "id"
      · subst hid
        have hcons : Address.ids (("id", numberAt? inner) :: more)
            = numberAt? inner :: Address.ids more := by simp [Address.ids]
        rw [hcons]
        refine ⟨by simp, fun id heq a => ?_⟩
        rw [List.cons.injEq] at heq
        exact (readMembers_next hnext hname (readMember_id hcolon heq.1 hskip)).trans
          (hnone heq.2 _)
      · have hcons : Address.ids ((name, numberAt? inner) :: more) = Address.ids more := by
          simp [Address.ids, hid]
        have hother (state : List String × Address) :
            Address.record.readMember budget state name colon = .ok (state, after) := by
          simp only [readMember_other hid, hcolon, hskip, bind, Except.bind]
          rfl
        rw [hcons]
        exact ⟨fun heq state => (readMembers_next hnext hname (hother state)).trans
            (hnone heq state),
          fun id heq a => (readMembers_next hnext hname (hother _)).trans (hone id heq a)⟩

theorem Address.ofBody_of_entries {body : Bytes} {entries : Entries} {id : UInt64}
    (h : entriesOf body = .ok entries) (hid : Address.ids entries = [some (.natural id)]) :
    Address.ofBody body = id := by
  obtain ⟨rest, hread, hend⟩ := readWhole_eq_ok.mp h
  obtain ⟨⟨b, inside⟩, hvalue, hread⟩ := bind_eq_ok.mp hread
  dsimp only at hread
  split at hread
  · rename_i hb
    subst hb
    obtain ⟨mid, hmembers, hclose⟩ := closing_eq_ok.mp hread
    obtain ⟨more, hentries, -, hone⟩ :=
      readMembers_address ⟨126, body.length + 1⟩ hmembers
    cases hentries
    have haddress : readMembers (Address.record.readMember ⟨126, body.length + 1⟩)
        (body.length + 1) (body.length + 1) true ([], Address.record.start) inside
          = .ok ((["id"], ⟨id⟩), mid) := hone id hid ⟨0⟩
    have hmissing : Address.record.missing? ["id"] = none := rfl
    have hobject : Address.record.readObject ⟨126, body.length + 1⟩ inside = .ok (⟨id⟩, mid) := by
      simp only [Record.readObject, haddress, bind, Except.bind, hmissing]
      rfl
    have hdecode : decode body = .ok (Address.mk id) := by
      refine readWhole_eq_ok.mpr ⟨rest, ?_, hend⟩
      change Address.record.read ⟨127, body.length + 1⟩ body = _
      simp only [Record.read, hvalue, bind, Except.bind, Budget.enter, hobject]
      exact closing_eq_ok.mpr ⟨mid, rfl, hclose⟩
    rw [Address.ofBody, hdecode]
  · exact absurd hread refuse_ne_ok

end PathPolicy
