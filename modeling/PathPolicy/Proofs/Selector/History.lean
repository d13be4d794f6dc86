import PathPolicy.Proofs.Selector.Run

/-!
What the sessions hold, said by the history of accepted operations. An operation acts on the
session of its own pair's key and on no other; a session exists since it was last opened, and a
fingerprint is a candidate since it was last listed.
-/
namespace PathPolicy.Selector
open Script

namespace Operation

def onSession : Operation → Option Session → Option Session
  | initialise preferences paths, _ => some ⟨preferences, .ofList paths⟩
  | setPreferences preferences, s => some { s.getD .empty with preferences }
  | path, s => s
  | pathDown fp _, s => s.map fun s => { s with paths := s.paths.erase fp }
  | refresh paths, s => some { s.getD .empty with paths := .ofList paths }
  | close, _ => none

theorem getElem?_tables_plan (p : Pair) (t : SessionTable) (operation : Operation) (key : String) :
    (operation.plan p t).tables[key]?
      = if p.key = key then operation.onSession t[key]? else t[key]? := by
  cases operation with
  | initialise preferences paths =>
    simp [plan, Plan.notify, Plan.tables, onSession, SessionTable.getElem?_install]
  | setPreferences preferences =>
    simp only [plan, Plan.notify, Plan.tables, onSession, SessionTable.setPreferences,
      SessionTable.getElem?_change]
    split <;> simp_all
  | path =>
    by_cases h : p.key ∈ t <;> simp [plan, h, Plan.tables, onSession]
  | pathDown fp interface =>
    simp only [plan, Plan.notify, Plan.tables, onSession, SessionTable.getElem?_evict]
    split <;> simp_all
  | refresh paths =>
    simp only [plan, Plan.notify, Plan.tables, onSession, SessionTable.refresh,
      SessionTable.getElem?_change]
    split <;> simp_all
  | close =>
    by_cases h : p.key ∈ t
    · simp [plan, h, Plan.notify, Plan.tables, onSession, Std.ExtTreeMap.getElem?_erase]
    · by_cases hk : p.key = key
      · subst hk
        simp [plan, h, Plan.tables, onSession]
      · simp [plan, h, Plan.tables, hk]

def Opens : Operation → Prop
  | initialise _ _ | setPreferences _ | refresh _ => True
  | path | pathDown _ _ | close => False

def listed? : Operation → Option (List Path)
  | initialise _ paths | refresh paths => some paths
  | setPreferences _ | path | pathDown _ _ | close => none

def Lists (fp : Fingerprint) (operation : Operation) : Prop :=
  ∃ paths, operation.listed? = some paths ∧ fp ∈ paths.map Path.fingerprint

/-- The operation neither ends the session, nor brings a new list, nor reports the path down. -/
def Spares (fp : Fingerprint) (operation : Operation) : Prop :=
  operation ≠ close ∧ operation.listed? = none ∧ ∀ interface, operation ≠ pathDown fp interface

theorem isSome_onSession (operation : Operation) (s : Option Session) :
    (operation.onSession s).isSome ↔ operation.Opens ∨ operation ≠ close ∧ s.isSome := by
  cases operation <;> simp [onSession, Opens]

theorem isSome_candidate_onSession (operation : Operation) (s : Option Session)
    (fp : Fingerprint) :
    ((operation.onSession s).bind fun s => s.paths[fp]?).isSome
      ↔ operation.Lists fp ∨ operation.Spares fp ∧ (s.bind fun s => s.paths[fp]?).isSome := by
  cases operation with
  | initialise preferences paths =>
    simp [onSession, Lists, Spares, listed?, PathTable.getElem?_ofList, List.isSome_find?]
  | setPreferences preferences =>
    cases s <;> simp [onSession, Lists, Spares, listed?, Session.empty]
  | path => simp [onSession, Lists, Spares, listed?]
  | pathDown down interface =>
    by_cases h : down = fp <;>
      cases s <;> simp [onSession, Lists, Spares, listed?, Std.ExtTreeMap.getElem?_erase, h]
  | refresh paths =>
    simp [onSession, Lists, Spares, listed?, PathTable.getElem?_ofList, List.isSome_find?]
  | close => simp [onSession, Lists, Spares, listed?]

end Operation

namespace History

def Opened (key : String) : History → Prop :=
  Since (fun e => e.1.key = key ∧ e.2.Opens) fun e => e.1.key = key → e.2 ≠ .close

/-- The fingerprint is on the key's latest list, and was not reported down since. -/
def Live (key : String) (fp : Fingerprint) : History → Prop :=
  Since (fun e => e.1.key = key ∧ e.2.Lists fp) fun e => e.1.key = key → e.2.Spares fp

/-- The key's latest list of candidates, brought since the key's session was last closed. -/
def Offers (key : String) (paths : List Path) : History → Prop :=
  Since (fun e => e.1.key = key ∧ e.2.listed? = some paths)
    fun e => e.1.key = key → e.2 ≠ .close ∧ e.2.listed? = none

theorem Offers.opened {history : History} {key : String} {paths : List Path}
    (h : history.Offers key paths) : history.Opened key := by
  obtain ⟨before, entry, after, rfl, ⟨hkey, hlisted⟩, hafter⟩ := h
  refine ⟨before, entry, after, rfl, ⟨hkey, ?_⟩, fun e he hk => (hafter e he hk).1⟩
  cases h : entry.2 with
  | initialise _ _ | refresh _ => trivial
  | _ =>
    rw [h] at hlisted
    cases hlisted

theorem Live.offers {history : History} {key : String} {fp : Fingerprint}
    (h : history.Live key fp) :
    ∃ paths, history.Offers key paths ∧ fp ∈ paths.map Path.fingerprint := by
  obtain ⟨before, entry, after, rfl, ⟨hkey, paths, hlisted, hmem⟩, hafter⟩ := h
  refine ⟨paths, ⟨before, entry, after, rfl, ⟨hkey, hlisted⟩, ?_⟩, hmem⟩
  intro e he hk
  obtain ⟨hclose, hnone, -⟩ := hafter e he hk
  exact ⟨hclose, hnone⟩

theorem contains_sessions (history : History) (key : String) :
    history.sessions.contains key ↔ history.Opened key := by
  rw [Std.ExtTreeMap.contains_eq_isSome_getElem?]
  induction history using List.reverseRecOn with
  | nil => simp [sessions, Opened]
  | append_singleton history entry ih =>
    rw [sessions_append_singleton, Operation.getElem?_tables_plan, Opened, Since.append_singleton,
      ← Opened, ← ih]
    by_cases h : entry.1.key = key <;> simp [h, Operation.isSome_onSession]

theorem isSome_resolve_sessions (history : History) (key : String) (fp : Fingerprint) :
    (history.sessions.resolve key fp).isSome ↔ history.Live key fp := by
  rw [SessionTable.resolve]
  induction history using List.reverseRecOn with
  | nil => simp [sessions, Live]
  | append_singleton history entry ih =>
    rw [sessions_append_singleton, Operation.getElem?_tables_plan, Live, Since.append_singleton,
      ← Live, ← ih]
    by_cases h : entry.1.key = key <;> simp [h, Operation.isSome_candidate_onSession]

end History
end PathPolicy.Selector
