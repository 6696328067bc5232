import Enimul.GoText
import Mathlib.Algebra.Group.Nat.Defs

/-! Durations in their text form, as `time.ParseDuration` reads them. -/
namespace Enimul
namespace GoTime

open GoSlice GoText

def nanosecond : ℕ := 1
def microsecond : ℕ := 1000
def millisecond : ℕ := 1000*microsecond
def second : ℕ := 1000*millisecond
def minute : ℕ := 60*second
def hour : ℕ := 60*minute

/-- The two spellings of the micro sign are outside ASCII. -/
def unitMap (u : Str) : Option ℕ :=
  if u = str "ns" then some nanosecond
  else if u = str "us" ∨ u = [0xc2,0xb5,0x73] ∨ u = [0xce,0xbc,0x73] then some microsecond
  else if u = str "ms" then some millisecond
  else if u = str "s" then some second
  else if u = str "m" then some minute
  else if u = str "h" then some hour
  else none

def isDigit (c : UInt8) : Bool := 48 ≤ c ∧ c ≤ 57

def digitsValue (ds : Str) : ℕ := ds.foldl (fun n c => n*10+(c.toNat-48)) 0

/-- The digits behind the point that are kept, as a number and a power of ten. -/
def leadingFraction (ds : Str) : ℕ × ℕ :=
  let r := ds.foldl (fun (acc : ℕ × ℕ × Bool) c =>
    let y := acc.1*10+(c.toNat-48)
    if acc.2.2 then acc
    else if (2^63-1)/10 < acc.1 ∨ 2^63 < y then (acc.1,acc.2.1,true)
    else (y,acc.2.1*10,false)) (0,1,false)
  (r.1,r.2.1)

def quote (s : Str) : String := "\"" ++ text s ++ "\""

def invalidDuration (orig : Str) : String := "time: invalid duration " ++ quote orig

/-- The whole and the fractional digits at the head, and the text behind them. -/
def splitNumber (s : Str) : Str × Str × Str :=
  let whole := s.takeWhile isDigit
  let rest := s.drop whole.length
  if rest.head? = some 46 then
    let fraction := (rest.drop 1).takeWhile isDigit
    (whole,fraction,rest.drop (1+fraction.length))
  else (whole,[],rest)

/-- The loop over the numbers with their units. The fraction is taken exactly, where the
library computes it in floating point. -/
def sumUnits (orig : Str) : ℕ → Str → ℕ → Except String ℕ
  | 0, _, d => .ok d
  | rounds+1, s, d =>
    if s = [] then .ok d
    else
      let (whole,fraction,rest) := splitNumber s
      let v := digitsValue whole
      if (whole = [] ∧ fraction = []) ∨ 2^63 < v then .error (invalidDuration orig)
      else
        let u := rest.takeWhile fun c => ¬ (c = 46 ∨ isDigit c)
        if u = [] then .error ("time: missing unit in duration " ++ quote orig)
        else
          match unitMap u with
          | none => .error ("time: unknown unit " ++ quote u ++ " in duration " ++ quote orig)
          | some unit =>
            let (f,scale) := leadingFraction fraction
            let v := v*unit+f*unit/scale
            if 2^63 < v ∨ 2^63 < d+v then .error (invalidDuration orig)
            else sumUnits orig rounds (rest.drop u.length) (d+v)

/-- A duration in nanoseconds. -/
def parseDuration (orig : Str) : Except String ℤ :=
  let neg := orig.head? = some 45
  let s := if neg ∨ orig.head? = some 43 then orig.drop 1 else orig
  if s = str "0" then .ok 0
  else if s = [] then .error (invalidDuration orig)
  else
    match sumUnits orig s.length s 0 with
    | .error err => .error err
    | .ok d =>
      if neg then .ok (-d)
      else if 2^63-1 < d then .error (invalidDuration orig)
      else .ok d

end GoTime
end Enimul
