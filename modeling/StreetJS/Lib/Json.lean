/-
JSON values and their texts, as the tokens that a text is made of. A text that was written is read back, and an
object is compared without the order of its fields.
-/
import StreetJS.Lib.StableSort
import StreetJS.Lib.OrderedMap
import Mathlib.Data.String.Basic
import Mathlib.Data.Rat.Init

namespace StreetJS.Lib

open List

inductive Json
  | null
  | bool (value : Bool)
  | num (value : Rat)
  | str (text : String)
  | arr (items : List Json)
  | obj (fields : List (String × Json))

namespace Json

/-- `value ? … : …`. -/
def truthy : Json → Bool
  | .null => false
  | .bool b => b
  | .num n => n ≠ 0
  | .str s => s ≠ ""
  | .arr _ => true
  | .obj _ => true

/-- `value[key]` of an object; a value of another kind has no such property. -/
def field (value : Json) (key : String) : Option Json :=
  match value with
  | .obj fields => OrderedMap.get fields key
  | _ => none

/-- `a === b` of values that were parsed apart: objects and arrays are never the same. -/
def strictEq : Json → Json → Bool
  | .null, .null => true
  | .bool a, .bool b => a = b
  | .num a, .num b => a = b
  | .str a, .str b => a = b
  | _, _ => false

inductive Token
  | null
  | bool (value : Bool)
  | num (value : Rat)
  | str (text : String)
  | openArr
  | closeArr
  | openObj
  | closeObj
  | comma
  | colon
  deriving DecidableEq

/-! ## Writing -/

mutual

/-- `JSON.stringify`. -/
def stringify : Json → List Token
  | .null => [.null]
  | .bool b => [.bool b]
  | .num q => [.num q]
  | .str s => [.str s]
  | .arr [] => [.openArr, .closeArr]
  | .arr (v :: vs) => .openArr :: (stringify v ++ moreItems vs)
  | .obj [] => [.openObj, .closeObj]
  | .obj ((k, v) :: fields) => .openObj :: .str k :: .colon :: (stringify v ++ moreFields fields)

def moreItems : List Json → List Token
  | [] => [.closeArr]
  | v :: vs => .comma :: (stringify v ++ moreItems vs)

def moreFields : List (String × Json) → List Token
  | [] => [.closeObj]
  | (k, v) :: fields => .comma :: .str k :: .colon :: (stringify v ++ moreFields fields)

end

/-! ## Reading -/

mutual

def readValue : Nat → List Token → Option (Json × List Token)
  | _ + 1, .null :: ts => some (.null, ts)
  | _ + 1, .bool b :: ts => some (.bool b, ts)
  | _ + 1, .num q :: ts => some (.num q, ts)
  | _ + 1, .str s :: ts => some (.str s, ts)
  | _ + 1, .openArr :: .closeArr :: ts => some (.arr [], ts)
  | fuel + 1, .openArr :: ts =>
    (readValue fuel ts).bind fun (v, ts) => (readItems fuel ts).map fun (vs, ts) => (.arr (v :: vs), ts)
  | _ + 1, .openObj :: .closeObj :: ts => some (.obj [], ts)
  | fuel + 1, .openObj :: .str k :: .colon :: ts =>
    (readValue fuel ts).bind fun (v, ts) => (readFields fuel ts).map fun (fields, ts) => (.obj ((k, v) :: fields), ts)
  | _, _ => none

def readItems : Nat → List Token → Option (List Json × List Token)
  | _ + 1, .closeArr :: ts => some ([], ts)
  | fuel + 1, .comma :: ts =>
    (readValue fuel ts).bind fun (v, ts) => (readItems fuel ts).map fun (vs, ts) => (v :: vs, ts)
  | _, _ => none

def readFields : Nat → List Token → Option (List (String × Json) × List Token)
  | _ + 1, .closeObj :: ts => some ([], ts)
  | fuel + 1, .comma :: .str k :: .colon :: ts =>
    (readValue fuel ts).bind fun (v, ts) => (readFields fuel ts).map fun (fields, ts) => ((k, v) :: fields, ts)
  | _, _ => none

end

/-- `JSON.parse` of a text in which no object has a key twice. -/
def parse (text : List Token) : Option Json :=
  match readValue text.length text with
  | some (v, []) => some v
  | _ => none

theorem stringify_ne_nil (v : Json) : v.stringify ≠ [] := by
  cases v with
  | arr items => cases items <;> exact cons_ne_nil _ _
  | obj fields => cases fields <;> exact cons_ne_nil _ _
  | _ => exact cons_ne_nil _ _

theorem stringify_head (v : Json) (ts : List Token) : ∃ t rest, v.stringify ++ ts = t :: rest ∧ t ≠ .closeArr := by
  cases v with
  | arr items => cases items <;> exact ⟨_, _, rfl, nofun⟩
  | obj fields => cases fields <;> exact ⟨_, _, rfl, nofun⟩
  | _ => exact ⟨_, _, rfl, nofun⟩

theorem readValue_openArr {fuel : Nat} {t : Token} {ts : List Token} (h : t ≠ .closeArr) : readValue (fuel + 1) (.openArr :: t :: ts) =
      (readValue fuel (t :: ts)).bind fun (v, ts) => (readItems fuel ts).map fun (vs, ts) => (.arr (v :: vs), ts) := by
  cases t <;> first | rfl | exact absurd rfl h

mutual

theorem readValue_stringify : ∀ (v : Json) (fuel : Nat) (ts : List Token), v.stringify.length ≤ fuel →
    readValue fuel (v.stringify ++ ts) = some (v, ts)
  | .null, fuel + 1, ts, _ => rfl
  | .bool _, fuel + 1, ts, _ => rfl
  | .num _, fuel + 1, ts, _ => rfl
  | .str _, fuel + 1, ts, _ => rfl
  | .arr [], fuel + 1, ts, _ => rfl
  | .arr (v :: vs), fuel + 1, ts, h => by
    simp only [stringify, length_cons, length_append, cons_append, append_assoc] at h ⊢
    obtain ⟨t, rest, heq, hne⟩ := stringify_head v (moreItems vs ++ ts)
    rw [heq, readValue_openArr hne, ← heq, readValue_stringify v fuel _ (by omega), Option.bind_some]
    dsimp only
    rw [readItems_moreItems vs fuel ts (by omega)]
    rfl
  | .obj [], fuel + 1, ts, _ => rfl
  | .obj ((k, v) :: fields), fuel + 1, ts, h => by
    simp only [stringify, length_cons, length_append, cons_append, append_assoc] at h ⊢
    rw [readValue, readValue_stringify v fuel _ (by omega), Option.bind_some]
    dsimp only
    rw [readFields_moreFields fields fuel ts (by omega)]
    rfl
  | v, 0, ts, h => absurd (length_eq_zero_iff.1 (Nat.le_zero.1 h)) (stringify_ne_nil v)

theorem readItems_moreItems : ∀ (vs : List Json) (fuel : Nat) (ts : List Token), (moreItems vs).length ≤ fuel →
    readItems fuel (moreItems vs ++ ts) = some (vs, ts)
  | [], fuel + 1, ts, _ => rfl
  | v :: vs, fuel + 1, ts, h => by
    simp only [moreItems, length_cons, length_append, cons_append, append_assoc] at h ⊢
    rw [readItems, readValue_stringify v fuel _ (by omega), Option.bind_some]
    dsimp only
    rw [readItems_moreItems vs fuel ts (by omega)]
    rfl
  | [], 0, ts, h => absurd h (by simp [moreItems])
  | v :: vs, 0, ts, h => absurd h (by simp [moreItems])

theorem readFields_moreFields : ∀ (fields : List (String × Json)) (fuel : Nat) (ts : List Token),
    (moreFields fields).length ≤ fuel → readFields fuel (moreFields fields ++ ts) = some (fields, ts)
  | [], fuel + 1, ts, _ => rfl
  | (k, v) :: fields, fuel + 1, ts, h => by
    simp only [moreFields, length_cons, length_append, cons_append, append_assoc] at h ⊢
    rw [readFields, readValue_stringify v fuel _ (by omega), Option.bind_some]
    dsimp only
    rw [readFields_moreFields fields fuel ts (by omega)]
    rfl
  | [], 0, ts, h => absurd h (by simp [moreFields])
  | (k, v) :: fields, 0, ts, h => absurd h (by simp [moreFields])

end

/-- **What was written is read back.** -/
theorem parse_stringify (v : Json) : parse v.stringify = some v := by
  have hread := readValue_stringify v v.stringify.length [] le_rfl
  rw [append_nil] at hread
  rw [parse, hread]

theorem stringify_injective {v v' : Json} (h : v.stringify = v'.stringify) : v = v' := by
  have hparse := parse_stringify v
  rw [h, parse_stringify] at hparse
  exact (Option.some.inj hparse).symm

/-! ## Objects without the order of their fields -/

/-- Keys by their length, then by their bytes. -/
def keyOrder (field : String × Json) : Nat ×ₗ String := toLex (field.1.utf8ByteSize, field.1)

mutual

/-- The fields of every object in the order of their keys. -/
def canonical : Json → Json
  | .arr items => .arr (canonicalItems items)
  | .obj fields => .obj (sortOn keyOrder (canonicalFields fields))
  | .null => .null
  | .bool b => .bool b
  | .num q => .num q
  | .str s => .str s

def canonicalItems : List Json → List Json
  | [] => []
  | v :: vs => canonical v :: canonicalItems vs

def canonicalFields : List (String × Json) → List (String × Json)
  | [] => []
  | (k, v) :: fields => (k, canonical v) :: canonicalFields fields

end

theorem canonicalFields_eq_map (fields : List (String × Json)) :
    canonicalFields fields = fields.map fun field => (field.1, field.2.canonical) := by
  induction fields with
  | nil => rfl
  | cons field fields ih => rw [canonicalFields, map_cons, ih]

theorem canonicalFields_sortOn (fields : List (String × Json)) :
    canonicalFields (sortOn keyOrder fields) = sortOn keyOrder (canonicalFields fields) := by
  rw [canonicalFields_eq_map, canonicalFields_eq_map]
  exact (sortOn_map keyOrder keyOrder (fun field => (field.1, field.2.canonical)) (fun _ => rfl) fields).symm

mutual

theorem canonical_canonical : ∀ v : Json, v.canonical.canonical = v.canonical
  | .null => rfl
  | .bool _ => rfl
  | .num _ => rfl
  | .str _ => rfl
  | .arr items => by
    rw [canonical, canonical, canonicalItems_canonicalItems]
  | .obj fields => by
    rw [canonical, canonical, canonicalFields_sortOn, canonicalFields_canonicalFields]
    rw [sortOn_of_pairwise keyOrder _ (sortOn_pairwise keyOrder _)]

theorem canonicalItems_canonicalItems : ∀ vs : List Json, canonicalItems (canonicalItems vs) = canonicalItems vs
  | [] => rfl
  | v :: vs => by
    rw [canonicalItems, canonicalItems, canonical_canonical, canonicalItems_canonicalItems]

theorem canonicalFields_canonicalFields : ∀ fields : List (String × Json), canonicalFields (canonicalFields fields) = canonicalFields fields
  | [] => rfl
  | (k, v) :: fields => by
    rw [canonicalFields, canonicalFields, canonical_canonical, canonicalFields_canonicalFields]

end

/-! ## The texts in a value -/

mutual

/-- `p` holds of every text and every key. -/
def texts (p : String → Bool) : Json → Bool
  | .str s => p s
  | .arr items => itemTexts p items
  | .obj fields => fieldTexts p fields
  | .null => true
  | .bool _ => true
  | .num _ => true

def itemTexts (p : String → Bool) : List Json → Bool
  | [] => true
  | v :: vs => texts p v && itemTexts p vs

def fieldTexts (p : String → Bool) : List (String × Json) → Bool
  | [] => true
  | (k, v) :: fields => p k && texts p v && fieldTexts p fields

end

end Json

end StreetJS.Lib
