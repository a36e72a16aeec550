import DnsTools.Lib.Json

/-!
# How the analyser reads a report

The functions `jload` of `preview.py`, `fit.py` and `grinder.py`. Those of `preview.py` and `fit.py`
are the same; that of `grinder.py` also has the section `fits`. A result is `none` for a text that
is not JSON, and where an entry is not of the type that the programs take it for.

The times are nanoseconds, which the two probes print as integers. `jload` itself looks at none but
those of `receives`, so in Python a number with a fraction or a `null` among the others gets as far
as the arithmetic of its caller; here every such file is turned down at once.
-/

namespace DnsTools

namespace Analyser

/-- An integer. -/
def asInt : Json → Option ℤ
  | .int i => some i
  | _ => none

/-- A list. -/
def asList : Json → Option (List Json)
  | .array vs => some vs
  | _ => none

/-- A list of integers. -/
def asInts (v : Json) : Option (List ℤ) := do (← asList v).mapM asInt

/-- A list of lists of integers. -/
def asPairs (v : Json) : Option (List (List ℤ)) := do (← asList v).mapM asInts

/-- A dictionary. -/
def asDict : Json → Option (List (List Char × Json))
  | .object ms => some ms
  | _ => none

/-- `data.get(key, default)`. In a dictionary the last member of a name counts. -/
def get (data : List (List Char × Json)) (key : List Char) (default : Json) : Json :=
  ((data.reverse.find? fun m => m.1 = key).map (·.2)).getD default

/-- `sends`, `receives` and `pairs`. -/
structure Data where
  /-- `sends`. -/
  sends : List ℤ
  /-- `receives`. -/
  receives : List ℤ
  /-- `pairs`. -/
  pairs : List (List ℤ)
deriving DecidableEq, Repr

theorem mapM_map {α β : Type*} {f : α → Option β} {g : β → α} (h : ∀ x, f (g x) = some x)
    (xs : List β) : (xs.map g).mapM f = some xs := by
  induction xs with
  | nil => rfl
  | cons x xs ih =>
    rw [List.map_cons, List.mapM_cons, h, ih]
    rfl

theorem asInts_ints (is : List ℤ) : asInts (.array (is.map .int)) = some is :=
  mapM_map (f := asInt) (fun _ => rfl) is

theorem asPairs_pairs (pairs : List (List ℤ)) :
    asPairs (.array (pairs.map fun pair => .array (pair.map .int))) = some pairs :=
  mapM_map (f := asInts) asInts_ints pairs

/-- What the three functions have in common. -/
def sections (data : List (List Char × Json)) : Option Data := do
  let sends ← asInts (get data "sends".toList (.array []))
  let receives ← asInts (get data "receives".toList (.array []))
  let pairs ← asPairs (get data "pairs".toList (.array []))
  return { sends, receives := receives.filter (0 < ·), pairs }

/-- `jload` of `preview.py` and of `fit.py`. -/
def jload (text : List Char) : Option Data := do
  sections (← asDict (← Json.decode text))

/-- The section `fits`. -/
structure Fits where
  /-- The parameters of the fits of `sends`. -/
  sends : List Json
  /-- The parameters of the fits of `receives`. -/
  receives : List Json

end Analyser

/-- `jload` of `grinder.py`. -/
def Grinder.jload (text : List Char) : Option (Analyser.Data × Analyser.Fits) := do
  let data ← Analyser.asDict (← Json.decode text)
  let fits ← Analyser.asDict (Analyser.get data "fits".toList (.object []))
  let sends ← Analyser.asList (Analyser.get fits "sends".toList (.array []))
  let receives ← Analyser.asList (Analyser.get fits "receives".toList (.array []))
  return (← Analyser.sections data, { sends, receives })

end DnsTools
