import PathPolicy.Proofs.Selector.History

/-!
The keys of address pairs. As long as local addresses hold no space, the first space of a key is
the one that parts the addresses: different pairs have different keys, and what is done for one of
them does not reach the session of another.
-/
namespace PathPolicy.Selector

theorem append_separator_inj {α : Type} {separator : α} {xs ys us vs : List α}
    (hxs : separator ∉ xs) (hys : separator ∉ ys) :
    xs ++ separator :: us = ys ++ separator :: vs ↔ xs = ys ∧ us = vs := by
  induction xs generalizing ys with
  | nil =>
    cases ys with
    | nil => simp
    | cons y ys =>
      -- the first separator of one side stands where the other side has none yet
      have hne : separator ≠ y := fun h => hys (h ▸ List.mem_cons_self)
      simp [hne]
  | cons x xs ih =>
    cases ys with
    | nil =>
      have hne : x ≠ separator := fun h => hxs (h ▸ List.mem_cons_self)
      simp [hne]
    | cons y ys =>
      have htails := ih (fun h => hxs (List.mem_cons_of_mem x h))
        (fun h => hys (List.mem_cons_of_mem y h))
      rw [List.cons_append, List.cons_append, List.cons.injEq, List.cons.injEq, htails, and_assoc]

namespace Pair
variable {p q : Pair}

/-- The local address holds no space, as is the case for canonical ones. -/
def Canonical (p : Pair) : Prop := ' ' ∉ p.localAddress.toList

theorem toList_key (p : Pair) :
    p.key.toList = p.localAddress.toList ++ ' ' :: p.remoteAddress.toList := by
  simp [key]

theorem key_inj (hp : p.Canonical) (hq : q.Canonical) : p.key = q.key ↔ p = q := by
  have haddresses : p.key = q.key
      ↔ p.localAddress = q.localAddress ∧ p.remoteAddress = q.remoteAddress := by
    rw [← String.toList_inj, toList_key, toList_key, append_separator_inj hp hq, String.toList_inj,
      String.toList_inj]
  cases p
  cases q
  rw [haddresses, Pair.mk.injEq]

/-- Cut at its first space, every key is that of a canonical pair. -/
theorem exists_canonical (p : Pair) : ∃ q : Pair, q.Canonical ∧ q.key = p.key := by
  by_cases hp : ' ' ∈ p.localAddress.toList
  · obtain ⟨before, after, hsplit, hbefore⟩ := List.eq_append_cons_of_mem hp
    refine ⟨⟨.ofList before, .ofList (after ++ ' ' :: p.remoteAddress.toList)⟩, ?_, ?_⟩
    · rwa [Canonical, String.toList_ofList]
    · rw [← String.toList_inj, toList_key, toList_key, String.toList_ofList, String.toList_ofList,
        hsplit, List.append_assoc, List.cons_append]
  · exact ⟨p, hp, rfl⟩

end Pair

theorem Operation.session_of_other_pair {p q : Pair} (hp : p.Canonical) (hq : q.Canonical)
    (hne : p ≠ q) (t : SessionTable) (operation : Operation) :
    (operation.plan p t).tables[q.key]? = t[q.key]? := by
  have hkey : p.key ≠ q.key := fun h => hne ((Pair.key_inj hp hq).mp h)
  rw [getElem?_tables_plan, if_neg hkey]

/-- Pairs whose local addresses hold no space have the same key only if they are the same, whatever
their remote addresses hold. That is as far as it goes: a local address with a space always shares
its key with another pair, one whose local address has none. -/
theorem keys_do_not_collide :
    (∀ l₁ r₁ l₂ r₂ : String, ' ' ∉ l₁.toList → ' ' ∉ l₂.toList →
      (Pair.key ⟨l₁, r₁⟩ = Pair.key ⟨l₂, r₂⟩ ↔ l₁ = l₂ ∧ r₁ = r₂)) ∧
    ∀ l r : String, ' ' ∈ l.toList →
      ∃ l' r', ' ' ∉ l'.toList ∧ l' ≠ l ∧ Pair.key ⟨l', r'⟩ = Pair.key ⟨l, r⟩ := by
  constructor
  · intro l₁ r₁ l₂ r₂ h₁ h₂
    have hpairs : Pair.key ⟨l₁, r₁⟩ = Pair.key ⟨l₂, r₂⟩ ↔ Pair.mk l₁ r₁ = ⟨l₂, r₂⟩ :=
      Pair.key_inj h₁ h₂
    rw [hpairs, Pair.mk.injEq]
  · intro l r hspace
    obtain ⟨⟨l', r'⟩, hcanonical, hkey⟩ := Pair.exists_canonical ⟨l, r⟩
    refine ⟨l', r', hcanonical, ?_, hkey⟩
    rintro rfl
    exact hcanonical hspace

/-- An empty local address and remote ones with spaces, where the keys still differ. With a space in
a local address there is another pair of the same key. -/
theorem keys_do_not_collide_spaced :
    ' ' ∉ "".toList ∧ ' ' ∉ "a".toList ∧ Pair.key ⟨"", "a "⟩ ≠ Pair.key ⟨"a", " "⟩ ∧
    ' ' ∈ "a b".toList ∧
      ∃ l r, ' ' ∉ l.toList ∧ l ≠ "a b" ∧ Pair.key ⟨l, r⟩ = Pair.key ⟨"a b", "c"⟩ := by
  obtain ⟨hiff, hshared⟩ := keys_do_not_collide
  have hempty : ' ' ∉ "".toList := by decide
  have ha : ' ' ∉ "a".toList := by decide
  have hab : ' ' ∈ "a b".toList := by decide
  refine ⟨hempty, ha, ?_, hab, hshared "a b" "c" hab⟩
  intro h
  exact absurd ((hiff "" "a " "a" " " hempty ha).mp h).1 (by decide)

end PathPolicy.Selector
