import PathPolicy.Json.Codable
import PathPolicy.Path

/-!
Sessions: for each address pair in use, its preferences and its candidate paths by
fingerprint.
-/

namespace PathPolicy.Selector
open Json

abbrev PathTable := Std.ExtTreeMap Fingerprint Path

/-- The last of several paths with one fingerprint counts. -/
def PathTable.ofList (paths : List Path) : PathTable :=
  paths.foldl (fun table p => table.insert p.fingerprint p) ∅

namespace PathTable

theorem getElem?_ofList (paths : List Path) (fp : Fingerprint) :
    (ofList paths)[fp]? = paths.reverse.find? fun p => p.fingerprint = fp := by
  have general (t : PathTable) :
      (paths.foldl (fun t p => t.insert p.fingerprint p) t)[fp]?
        = ((paths.reverse.find? fun p => p.fingerprint = fp).or t[fp]?) := by
    induction paths generalizing t with
    | nil => simp
    | cons p rest ih =>
      simp only [List.foldl_cons, ih, Std.ExtTreeMap.getElem?_insert, List.reverse_cons,
        List.find?_append, Option.or_assoc]
      by_cases h : p.fingerprint = fp <;> simp [h]
  simp [ofList, general]

theorem contains_ofList (paths : List Path) (fp : Fingerprint) :
    (ofList paths).contains fp = paths.any fun p => p.fingerprint = fp := by
  simp [Std.ExtTreeMap.contains_eq_isSome_getElem?, getElem?_ofList, List.isSome_find?]

end PathTable

structure Session where
  preferences : Texts
  paths : PathTable

def Session.empty : Session := ⟨∅, ∅⟩

abbrev SessionTable := Std.ExtTreeMap String Session

namespace SessionTable

def install (t : SessionTable) (key : String) (preferences : Texts) (paths : List Path) :
    SessionTable :=
  t.insert key ⟨preferences, .ofList paths⟩

def change (t : SessionTable) (key : String) (f : Session → Session) : SessionTable :=
  t.insert key (f (t[key]?.getD .empty))

def refresh (t : SessionTable) (key : String) (paths : List Path) : SessionTable :=
  t.change key fun s => { s with paths := .ofList paths }

def setPreferences (t : SessionTable) (key : String) (preferences : Texts) : SessionTable :=
  t.change key fun s => { s with preferences }

def evict (t : SessionTable) (key : String) (fp : Fingerprint) : SessionTable :=
  match t[key]? with
  | some s => t.insert key { s with paths := s.paths.erase fp }
  | none => t

def resolve (t : SessionTable) (key : String) (fp : Fingerprint) : Option Path :=
  (t[key]?).bind fun s => s.paths[fp]?

def preferences (t : SessionTable) (key : String) : Option Texts :=
  (t[key]?).map Session.preferences

theorem getElem?_change (t : SessionTable) (key other : String) (f : Session → Session) :
    (t.change key f)[other]?
      = if key = other then some (f (t[key]?.getD .empty)) else t[other]? := by
  simp [change, Std.ExtTreeMap.getElem?_insert]

theorem getElem?_install (t : SessionTable) (key other : String) (preferences : Texts)
    (paths : List Path) :
    (t.install key preferences paths)[other]?
      = if key = other then some ⟨preferences, .ofList paths⟩ else t[other]? := by
  simp [install, Std.ExtTreeMap.getElem?_insert]

theorem getElem?_evict (t : SessionTable) (key other : String) (fp : Fingerprint) :
    (t.evict key fp)[other]?
      = if key = other then (t[key]?).map fun s => { s with paths := s.paths.erase fp }
        else t[other]? := by
  unfold evict
  split
  · rename_i s h
    simp [Std.ExtTreeMap.getElem?_insert, h]
  · rename_i h
    split
    · rename_i hk
      subst hk
      simp [h]
    · rfl

theorem resolve_evict_self (t : SessionTable) (key : String) (fp : Fingerprint) :
    (t.evict key fp).resolve key fp = none := by
  simp [resolve, getElem?_evict]

end SessionTable
end PathPolicy.Selector
