import SwapPool.Json.Token
import SwapPool.Pool.Basic

/-! Dumping a pool. Amounts are written as text, so that they survive readers
with narrow numbers; the number of the pool, its fee, decimals and amplification
are plain numbers. A record has no place for a negative amount or pool number,
and the first part of the pool that holds one refuses the dump; an amount beyond
the host's limit on digits has no text. -/

namespace SwapPool

namespace Record

def amountJson (n : Int) : Json := .text (toString n)

def volumeJson (v : Volume) : Json :=
  .object [("input", amountJson v.input), ("output", amountJson v.output)]

def ledgerJson (l : Ledger) : Json :=
  .object
    [("total_supply", amountJson l.totalSupply),
     ("balances", .object (l.balances.entries.map fun e => (e.1, amountJson e.2)))]

def valuationFields : Valuation → List (String × Json)
  | .pegged => []
  | .rated rates => [("rates", .list (rates.map amountJson))]
  | .riskCapped factors => [("degens", .list (factors.map amountJson))]

def curveFields : Curve → List (String × Json)
  | .constantProduct => []
  | .stable c =>
    ("token_decimals", .list (c.decimals.map Json.integer)) :: ("amp", .integer c.amp)
      :: valuationFields c.valuation

def poolJson (p : Pool) : Json :=
  .object <|
    [("token_account_ids", .list (p.tokens.map Json.text)),
     ("amounts", .list (p.amounts.map amountJson)),
     ("total_fee", .integer p.totalFee),
     ("shares", ledgerJson p.shares),
     ("volumes", .list (p.volumes.map volumeJson)),
     ("kind", .text p.kind.tag)]
    ++ curveFields p.curve

def documentJson (poolId : Int) (p : Pool) : Json :=
  .object [("version", .integer 1), ("pool_id", .integer poolId), ("pool", poolJson p)]

/-! ### What cannot be recorded -/

def negativeAt (path : List Segment) (n : Int) : List Problem :=
  if n < 0 then [⟨.badAmount (.negative (toString n)), path⟩] else []

def negativeItems (name : String) (xs : List Int) : List Problem :=
  xs.zipIdx.flatMap fun (n, i) => negativeAt [.key name, .position i] n

def ledgerProblems (l : Ledger) : List Problem :=
  negativeAt [.key "total_supply"] l.totalSupply
    ++ l.balances.entries.flatMap fun e => negativeAt [.key "balances", .key e.1] e.2

def volumeProblems (v : Volume) : List Problem :=
  negativeAt [.key "input"] v.input ++ negativeAt [.key "output"] v.output

def curveProblems : Curve → List Problem
  | .constantProduct => []
  | .stable c =>
    match c.valuation with
    | .pegged => []
    | .rated rates => negativeItems "rates" rates
    | .riskCapped factors => negativeItems "degens" factors

/-- The parts of a record in the order in which they are put together. -/
def problemsByPart (poolId : Int) (p : Pool) : List (List Problem) :=
  ledgerProblems p.shares :: p.volumes.map volumeProblems
    ++ [negativeItems "amounts" p.amounts ++ curveProblems p.curve,
        if poolId < 0 then [⟨.negativeInteger, [.key "pool_id"]⟩] else []]

/-- The amounts of a pool, which are written as text. -/
def amountsIn (p : Pool) : List Int :=
  p.amounts ++ p.shares.totalSupply :: p.shares.balances.entries.map Prod.snd
    ++ p.volumes.flatMap (fun v => [v.input, v.output])
    ++ match p.curve with
      | .constantProduct => []
      | .stable c =>
        match c.valuation with
        | .pegged => []
        | .rated rates => rates
        | .riskCapped factors => factors

end Record

/-- The text that records a pool under a number. -/
def dumpPool (digits : DigitLimit) (p : Pool) (poolId : Int) : Except Fault String :=
  match (Record.problemsByPart poolId p).find? fun problems => !problems.isEmpty with
  | some problems => .error (.malformed problems)
  | none =>
    if (Record.amountsIn p).all digits.covers then .ok (Record.documentJson poolId p).render
    else .error (.unwritableRecord digits)

end SwapPool
