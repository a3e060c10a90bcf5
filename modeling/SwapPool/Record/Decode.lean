import SwapPool.Json.Read
import SwapPool.Number.Checked
import SwapPool.Pool.Basic
import SwapPool.Record.Reading

/-! Loading a pool from its record: the text is read as a value, the value by the
fields below, and the pool is built under the conditions of every new one. The
configuration and the limit on digits are the host's. -/

namespace SwapPool

namespace Record

open Reading (ok fail)

/-- Every entry is read; of several with one name the first gives the place, the last the value. -/
def balances (digits : DigitLimit) : Json → Reading (OrderedMap String Int)
  | .object fs => (Reading.entries (amount digits) fs).map OrderedMap.ofList
  | _ => fail .notMap

def ledger (digits : DigitLimit) (fs : List (String × Json)) : Reading Ledger :=
  Ledger.mk <$> optional "total_supply" 0 (amount digits) fs
    <*> optional "balances" ∅ (balances digits) fs

def volume (digits : DigitLimit) (fs : List (String × Json)) : Reading Volume :=
  Volume.mk <$> optional "input" 0 (amount digits) fs <*> optional "output" 0 (amount digits) fs

def stableCurve (digits : DigitLimit) (valuation : List (String × Json) → Reading Valuation)
    (fs : List (String × Json)) : Reading Curve :=
  (fun decimals amp valuation => Curve.stable { decimals, amp, valuation })
    <$> required "token_decimals" (list (integer digits)) fs
    <*> required "amp" (integer digits) fs
    <*> valuation fs

/-- The fields that a kind has beyond the common ones. -/
def curve (digits : DigitLimit) (k : Kind) (fs : List (String × Json)) : Reading Curve :=
  let amounts (name : String) := required name (list (amount digits))
  match k with
  | .simple => ok .constantProduct
  | .stable => stableCurve digits (fun _ => ok .pegged) fs
  | .rated => stableCurve digits (fun fs => (amounts "rates" fs).map .rated) fs
  | .degen => stableCurve digits (fun fs => (amounts "degens" fs).map .riskCapped) fs

def fieldsOfPool (digits : DigitLimit) (config : Config) (k : Kind)
    (fs : List (String × Json)) : Reading Pool :=
  (fun tokens amounts totalFee shares volumes curve =>
      { tokens, amounts, totalFee, shares, volumes, config, curve })
    <$> required "token_account_ids" (list text) fs
    <*> required "amounts" (list (amount digits)) fs
    <*> required "total_fee" (integer digits) fs
    <*> required "shares" (object (ledger digits)) fs
    <*> required "volumes" (list (object (volume digits))) fs
    <*> curve digits k fs

/-- The kind is settled first; without one, nothing inside the pool is read. -/
def pool (digits : DigitLimit) (config : Config) : Json → Reading Pool
  | .object fs =>
    match Json.lastField? "kind" fs with
    | none | some .null => fail .noTag
    | some (.text tag) =>
      match Kind.ofTag? tag with
      | some k => Reading.under (.key k.tag) (fieldsOfPool digits config k fs)
      | none => fail .unknownTag
    | some _ => fail .unknownTag
  | _ => fail .noTag

/-- The version is the number one, in whatever form; integers stay within 64 bits. -/
def version : Json → Reading Unit
  | .integer n =>
    if n = 1 then ok () else fail (if isWide n then .oversizedInteger else .wrongVersion)
  | .truth true => ok ()
  | .real x => if (Binary64.ofDecimal x).whole? = some 1 then ok () else fail .wrongVersion
  | _ => fail .wrongVersion

/-- The number of a pool and the pool, not yet built. -/
def document (digits : DigitLimit) (config : Config) (fs : List (String × Json)) :
    Reading (Int × Pool) :=
  (fun _ poolId pool => (poolId, pool))
    <$> optional "version" () version fs
    <*> required "pool_id" (natural digits) fs
    <*> required "pool" (pool digits config) fs

def bounds (digits : DigitLimit) : Json.Bounds := ⟨200, digits⟩

end Record

/-- The number and the pool that a text records. -/
def loadPool (digits : DigitLimit) (config : Config) (text : String) :
    Except Fault (Int × Pool) :=
  match Json.parse? (Record.bounds digits) text with
  | none => .error (.malformed [⟨.invalidText, []⟩])
  | some j =>
    match Record.object (Record.document digits config) j with
    | .error problems => .error (.malformed problems)
    | .ok (poolId, draft) => do return (poolId, ← draft.build)

end SwapPool
