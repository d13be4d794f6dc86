import PathPolicy.Proofs.Json.Skip

/-!
A value that can be read can be passed over, and both end at the same place. The converse fails for
numbers out of range, lone surrogates and deep nesting.
-/
namespace PathPolicy.Json

theorem skipSpace_of_atValue {text rest : Bytes} {b : UInt8} (h : atValue text = .ok (b, rest)) :
    skipSpace text = b :: rest := by
  unfold atValue at h
  split at h
  · cases h
  · cases h
    assumption

theorem closing_eq_ok {α : Type} {close : Bytes → Except Failure Bytes}
    {result : Except Failure (α × Bytes)} {x : α} {rest : Bytes} :
    closing close result = .ok (x, rest) ↔ ∃ mid, result = .ok (x, mid) ∧ close mid = .ok rest := by
  unfold closing
  cases result with
  | error f => simp
  | ok found =>
    obtain ⟨y, mid⟩ := found
    cases hclose : close mid with
    | error f => simp [Except.map, hclose]
    | ok rest' => 
      simp only [hclose, Except.map, Except.ok.injEq, Prod.mk.injEq]
      constructor
      · rintro ⟨rfl, rfl⟩
        exact ⟨mid, ⟨rfl, rfl⟩, hclose⟩
      · rintro ⟨_, ⟨rfl, rfl⟩, h⟩
        cases hclose.symm.trans h
        exact ⟨rfl, rfl⟩

theorem skipSpace_of_closeList {text rest : Bytes} (h : closeList text = .ok rest) :
    skipSpace text = 93 :: rest := by
  unfold closeList at h
  split at h
  · cases h
  · split at h
    · cases h
      simp [*]
    · split at h
      · split at h <;> cases h
      · cases h

theorem skipSpace_of_closeObject {text rest : Bytes} (h : closeObject text = .ok rest) :
    skipSpace text = 125 :: rest := by
  unfold closeObject at h
  split at h
  · cases h
  · split at h
    · cases h
      simp [*]
    · cases h

theorem skipSpace_of_readColon {text rest : Bytes} (h : readColon text = .ok rest) :
    skipSpace text = 58 :: rest := by
  unfold readColon at h
  split at h
  · cases h
  · split at h
    · cases h
      simp [*]
    · cases h

theorem refuse_ne_ok {α : Type} {expected : String} {budget : Budget} {text : Bytes} {x : α} :
    refuse expected budget text ≠ .ok x := by
  have bind_fail {β : Type} {y : Except Failure β} {f : β → Failure} :
      y.bind (fun b => .error (f b)) ≠ .ok x := by
    cases y <;> simp [Except.bind]
  unfold refuse
  split
  · simp [failNext]
  · split_ifs <;> first | exact bind_fail | simp [fail, failNext]

theorem nextElement_end {first : Bool} {text rest : Bytes}
    (h : nextElement first text = .ok (false, rest)) :
    skipSpace text = rest ∧ ∃ more, rest = 93 :: more := by
  unfold nextElement at h
  split at h
  · cases h
  · rename_i b more hspace
    split at h
    · rename_i hb
      cases h
      exact ⟨hspace, more, by rw [hb]⟩
    split at h
    · cases h
    split at h
    · split at h
      · cases h
      · split at h <;> cases h
    · cases h

theorem nextElement_first {text rest : Bytes} (h : nextElement true text = .ok (true, rest)) :
    skipSpace text = rest ∧ ∃ b more, rest = b :: more ∧ b ≠ 93 := by
  unfold nextElement at h
  split at h
  · cases h
  · rename_i b more hspace
    split at h
    · cases h
    · rename_i hb
      cases h
      exact ⟨hspace, b, more, rfl, hb⟩

theorem nextElement_later {text rest : Bytes} (h : nextElement false text = .ok (true, rest)) :
    ∃ more, skipSpace text = 44 :: more ∧ skipSpace more = rest := by
  unfold nextElement at h
  split at h
  · cases h
  · rename_i b more hspace
    split at h
    · cases h
    split at h
    · contradiction
    split at h
    · rename_i hb
      split at h
      · cases h
      · rename_i c last hmore
        split at h
        · cases h
        · cases h
          exact ⟨more, by rw [hspace, hb], hmore⟩
    · cases h

theorem nextMember_end {first : Bool} {text rest : Bytes}
    (h : nextMember first text = .ok (false, rest)) :
    skipSpace text = rest ∧ ∃ more, rest = 125 :: more := by
  unfold nextMember at h
  split at h
  · cases h
  · rename_i b more hspace
    split at h
    · rename_i hb
      cases h
      exact ⟨hspace, more, by rw [hb]⟩
    split at h
    · split at h <;> cases h
    split at h
    · split at h
      · cases h
      · split at h <;> cases h
    · cases h

theorem nextMember_first {text rest : Bytes} (h : nextMember true text = .ok (true, rest)) :
    skipSpace text = rest ∧ ∃ quoted, rest = 34 :: quoted := by
  unfold nextMember at h
  split at h
  · cases h
  · rename_i b more hspace
    split at h
    · cases h
    rw [if_pos rfl] at h
    split at h
    · rename_i hb
      cases h
      exact ⟨hspace, more, by rw [hb]⟩
    · cases h

theorem nextMember_later {text rest : Bytes} (h : nextMember false text = .ok (true, rest)) :
    ∃ more quoted, skipSpace text = 44 :: more ∧ skipSpace more = rest ∧ rest = 34 :: quoted := by
  unfold nextMember at h
  split at h
  · cases h
  · rename_i b more hspace
    split at h
    · cases h
    split at h
    · contradiction
    split at h
    · rename_i hb
      split at h
      · cases h
      · rename_i c last hmore
        split at h
        · rename_i hc
          cases h
          exact ⟨more, last, by rw [hspace, hb], hmore, by rw [hc]⟩
        · split at h <;> cases h
    · cases h

theorem passes_elements {α : Type} {item : Bytes → Except Failure (α × Bytes)}
    (hitem : ∀ text x rest, item text = .ok (x, rest) → Passes text rest) {n : Nat}
    {text mid rest : Bytes} {xs : List α} (h : readElements item n false text = .ok (xs, mid))
    (hclose : closeList mid = .ok rest) : PassesAfter .list text rest := by
  induction n generalizing text xs with
  | zero => cases h
  | succ n ih =>
    obtain ⟨⟨more, next⟩, hnext, h⟩ := bind_eq_ok.mp h
    cases more with
    | false =>
      cases h
      obtain ⟨hspace, tail, rfl⟩ := nextElement_end hnext
      have := skipSpace_of_closeList hclose
      rw [← hspace, skipSpace_skipSpace] at this
      exact .last this
    | true =>
      obtain ⟨⟨x, after⟩, hx, h⟩ := bind_eq_ok.mp h
      obtain ⟨⟨ys, last⟩, hys, h⟩ := bind_eq_ok.mp h
      cases h
      obtain ⟨tail, hcomma, rfl⟩ := nextElement_later hnext
      exact .next hcomma (Bracket.names_list tail) (Passes.of_skipSpace (hitem _ x after hx)) (ih hys)

theorem passes_list {α : Type} {item : Bytes → Except Failure (α × Bytes)}
    (hitem : ∀ text x rest, item text = .ok (x, rest) → Passes text rest) {n : Nat}
    {text inside mid rest : Bytes} {xs : List α} (hopen : skipSpace text = 91 :: inside)
    (h : readElements item n true inside = .ok (xs, mid)) (hclose : closeList mid = .ok rest) :
    Passes text rest := by
  cases n with
  | zero => cases h
  | succ n =>
    obtain ⟨⟨more, next⟩, hnext, h⟩ := bind_eq_ok.mp h
    cases more with
    | false =>
      cases h
      obtain ⟨hspace, tail, rfl⟩ := nextElement_end hnext
      have := skipSpace_of_closeList hclose
      rw [← hspace, skipSpace_skipSpace] at this
      exact .empty .list hopen this
    | true =>
      obtain ⟨⟨x, after⟩, hx, h⟩ := bind_eq_ok.mp h
      obtain ⟨⟨ys, last⟩, hys, h⟩ := bind_eq_ok.mp h
      cases h
      obtain ⟨hspace, b, tail, rfl, hb⟩ := nextElement_first hnext
      exact .filled .list hopen hspace hb (Bracket.names_list _) (hitem _ x after hx)
        (passes_elements hitem hys hclose)

section Members
variable {σ : Type} {step : σ → String → Bytes → Except Failure (σ × Bytes)}

/-- The step reads the colon and a value that can be passed over. -/
def PassesMembers (step : σ → String → Bytes → Except Failure (σ × Bytes)) : Prop :=
  ∀ s name text t rest, step s name text = .ok (t, rest) →
    ∃ inner, readColon text = .ok inner ∧ Passes inner rest

theorem names_of_read {steps : Nat} {text quoted colon inner : Bytes} {name : String}
    (h : skipSpace text = 34 :: quoted) (hname : readText steps quoted = .ok (name, colon))
    (hcolon : readColon colon = .ok inner) : Bracket.object.Names text inner := by
  obtain ⟨hlt, hskip⟩ := skipQuoted_of_readText hname
  exact Bracket.names_object h hskip (Nat.le_of_lt hlt) (skipSpace_of_readColon hcolon)

theorem passes_members (hstep : PassesMembers step) {steps n : Nat} {s t : σ}
    {text mid rest : Bytes} (h : readMembers step steps n false s text = .ok (t, mid))
    (hclose : closeObject mid = .ok rest) : PassesAfter .object text rest := by
  induction n generalizing s text with
  | zero => cases h
  | succ n ih =>
    obtain ⟨⟨more, next⟩, hnext, h⟩ := bind_eq_ok.mp h
    cases more with
    | false =>
      cases h
      obtain ⟨hspace, tail, rfl⟩ := nextMember_end hnext
      have := skipSpace_of_closeObject hclose
      rw [← hspace, skipSpace_skipSpace] at this
      exact .last this
    | true =>
      obtain ⟨⟨name, colon⟩, hname, h⟩ := bind_eq_ok.mp h
      obtain ⟨⟨u, after⟩, hu, hmore⟩ := bind_eq_ok.mp h
      obtain ⟨tail, quoted, hcomma, hspace, rfl⟩ := nextMember_later hnext
      obtain ⟨inner, hcolon, hvalue⟩ := hstep s name colon u after hu
      exact .next hcomma (names_of_read hspace hname hcolon) hvalue (ih hmore)

end Members

theorem passes_of_readArray {item : Bytes → Except Failure (Value × Bytes)}
    (hitem : ∀ text v rest, item text = .ok (v, rest) → Passes text rest) {steps : Nat}
    {text inside rest : Bytes} {v : Value} (hopen : skipSpace text = 91 :: inside)
    (h : readArray item steps inside = .ok (v, rest)) : Passes text rest := by
  obtain ⟨⟨items, mid⟩, hitems, h⟩ := bind_eq_ok.mp h
  obtain ⟨rest', hclose, h⟩ := bind_eq_ok.mp h
  cases h
  exact passes_list hitem hopen hitems hclose

theorem passesMembers_insertMember {item : Bytes → Except Failure (Value × Bytes)}
    (hitem : ∀ text v rest, item text = .ok (v, rest) → Passes text rest) :
    PassesMembers (insertMember item) := by
  intro members name text t rest h
  obtain ⟨inner, hcolon, h⟩ := bind_eq_ok.mp h
  obtain ⟨⟨v, rest'⟩, hv, h⟩ := bind_eq_ok.mp h
  cases h
  exact ⟨inner, hcolon, hitem inner v rest hv⟩

theorem passes_of_readStandIn {embedded : Bytes → Except Cause Value} {budget : Budget}
    {text rest : Bytes} {v : Value} (h : readStandIn embedded budget text = .ok (v, rest)) :
    ∃ after, Passes text after ∧ closeObject after = .ok rest := by
  obtain ⟨⟨b, more⟩, hvalue, h⟩ := bind_eq_ok.mp h
  dsimp only at h
  split at h
  · rename_i hb
    subst hb
    obtain ⟨⟨s, after⟩, htext, h⟩ := bind_eq_ok.mp h
    obtain ⟨hlt, hskip⟩ := skipQuoted_of_readText htext
    dsimp only at h
    split at h
    · obtain ⟨rest', hclose, h⟩ := bind_eq_ok.mp h
      cases h
      exact ⟨after, passes_text (skipSpace_of_atValue hvalue) hskip (Nat.le_of_lt hlt), hclose⟩
    · cases h
  · obtain ⟨_, hrefuse, -⟩ := bind_eq_ok.mp h
    exact absurd hrefuse refuse_ne_ok

theorem passes_of_readTree {embedded : Bytes → Except Cause Value}
    {item : Bytes → Except Failure (Value × Bytes)}
    (hitem : ∀ text v rest, item text = .ok (v, rest) → Passes text rest) {budget : Budget}
    {text inside rest : Bytes} {v : Value} (hopen : skipSpace text = 123 :: inside)
    (h : readTree embedded item budget inside = .ok (v, rest)) : Passes text rest := by
  obtain ⟨⟨more, next⟩, hnext, h⟩ := bind_eq_ok.mp h
  cases more with
  | false =>
    obtain ⟨rest', hclose, h⟩ := bind_eq_ok.mp h
    cases h
    obtain ⟨hinside, tail, rfl⟩ := nextMember_end hnext
    have := skipSpace_of_closeObject hclose
    rw [← hinside, skipSpace_skipSpace] at this
    exact .empty .object hopen this
  | true =>
    obtain ⟨⟨name, colon⟩, hname, h⟩ := bind_eq_ok.mp h
    obtain ⟨inner, hcolon, hvalue⟩ := bind_eq_ok.mp h
    obtain ⟨hinside, quoted, rfl⟩ := nextMember_first hnext
    have hnames := names_of_read (skipSpace_cons (by decide) quoted) hname hcolon
    dsimp only at hvalue
    split at hvalue
    · obtain ⟨after, hpasses, hclose⟩ := passes_of_readStandIn hvalue
      exact .filled .object hopen hinside (by decide) hnames hpasses
        (.last (skipSpace_of_closeObject hclose))
    · obtain ⟨⟨value, after⟩, hfirst, hvalue⟩ := bind_eq_ok.mp hvalue
      obtain ⟨⟨members, mid⟩, hmembers, hvalue⟩ := bind_eq_ok.mp hvalue
      obtain ⟨rest', hclose, hvalue⟩ := bind_eq_ok.mp hvalue
      cases hvalue
      exact .filled .object hopen hinside (by decide) hnames (hitem inner value after hfirst)
        (passes_members (passesMembers_insertMember hitem) hmembers hclose)

theorem passes_of_readWord {text rest : Bytes} {read : Except Failure Bytes} {v w : Value}
    (hpasses : ∀ rest, read = .ok rest → Passes text rest)
    (h : (read >>= fun rest => return (w, rest)) = .ok (v, rest)) : Passes text rest := by
  obtain ⟨rest', hword, h⟩ := bind_eq_ok.mp h
  cases h
  exact hpasses rest hword

/-- A value that can be read, in whatever depth, can be passed over. -/
theorem passes_of_readValue {embedded : Bytes → Except Cause Value} {steps depth : Nat}
    {text rest : Bytes} {v : Value} (h : readValue embedded steps depth text = .ok (v, rest)) :
    Passes text rest := by
  -- on the levels that are left; the cases are those of the first byte
  induction depth using Nat.strong_induction_on generalizing text rest v with
  | _ depth ih =>
  rw [readValue] at h
  obtain ⟨⟨b, more⟩, hvalue, h⟩ := bind_eq_ok.mp h
  have hspace := skipSpace_of_atValue hvalue
  dsimp only at h
  split at h
  · rename_i hb
    subst hb
    exact passes_of_readWord (fun _ => passes_null hspace) h
  split at h
  · rename_i hb
    subst hb
    exact passes_of_readWord (fun _ => passes_true hspace) h
  split at h
  · rename_i hb
    subst hb
    exact passes_of_readWord (fun _ => passes_false hspace) h
  split at h
  · rename_i hb
    obtain ⟨⟨n, rest'⟩, hnumber, h⟩ := bind_eq_ok.mp h
    cases h
    obtain ⟨hskip, hlt⟩ := skipNumber_of_readNumber hnumber
    exact passes_number hspace (by simpa using hb) hskip hlt
  split at h
  · rename_i hb
    subst hb
    obtain ⟨⟨s, rest'⟩, htext, h⟩ := bind_eq_ok.mp h
    cases h
    obtain ⟨hlt, hskip⟩ := skipQuoted_of_readText htext
    exact passes_text hspace hskip (Nat.le_of_lt hlt)
  split at h
  · rename_i hb
    cases depth with
    | zero => cases h
    | succ depth =>
      have hitem : ∀ text v rest, readValue embedded steps depth text = .ok (v, rest) →
          Passes text rest := fun _ _ _ => ih depth (Nat.lt_succ_self depth)
      dsimp only at h
      split at h
      · rename_i hlist
        subst hlist
        exact passes_of_readArray hitem hspace h
      · rename_i hlist
        have hobject : b = 123 := by simpa [hlist] using hb
        subst hobject
        exact passes_of_readTree hitem hspace h
  · cases h

end PathPolicy.Json
