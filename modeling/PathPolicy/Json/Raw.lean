import PathPolicy.Json.Codable

/-! A JSON value kept as its text, which is looked at only as far as to find its end. -/

namespace PathPolicy.Json

structure Raw where
  text : Bytes
deriving DecidableEq

instance : Codable Raw where
  read budget text := do
    let text := skipSpace text
    let rest ← skipValue budget.steps text
    let raw := text.take (text.length - rest.length)
    match Bytes.text? raw with
    | some _ => return (⟨raw⟩, rest)
    | none => fail .invalidCodePoint rest
  ofValue v := .ok ⟨v.write⟩
  write raw := raw.text

end PathPolicy.Json
