import SwapPool.Host
import SwapPool.Operand.Arithmetic
import SwapPool.Operand.Named
import SwapPool.Proofs.Host.Atomicity
import SwapPool.Proofs.Stable.Swap
import SwapPool.Proofs.ConstantProduct.Dilution
import SwapPool.Proofs.Pool.Coverage
import SwapPool.Proofs.Pool.Guard
import SwapPool.Proofs.Pool.Simulation
import SwapPool.Proofs.Pool.Backing
import SwapPool.Proofs.Pool.Cap
import SwapPool.Proofs.Json.Scanning
import SwapPool.Proofs.Json.RoundTrip
import SwapPool.Proofs.Record.RoundTrip
import SwapPool.Proofs.Pool.Persistence
import SwapPool.Proofs.Pool.Conservation
import SwapPool.Proofs.Stable.Liquidity
import SwapPool.Proofs.Pool.Prediction
import SwapPool.Proofs.Pool.Refusals
import SwapPool.Proofs.Pool.Authority
import SwapPool.Proofs.Pool.Policy
import SwapPool.Proofs.Stable.RoundTrip
import SwapPool.Proofs.Pool.LastShare
import SwapPool.Proofs.ConstantProduct.Splitting
import SwapPool.Proofs.Pool.Redemption
import SwapPool.Proofs.ConstantProduct.Deposit
import SwapPool.Proofs.Pool.Instalments
import SwapPool.Proofs.Stable.ExactInvariant
import SwapPool.Proofs.Stable.Bracket
import SwapPool.Proofs.Stable.EqualBalances
import SwapPool.Proofs.Stable.Descent
import SwapPool.Proofs.ConstantProduct.GeometricMean
import SwapPool.Proofs.Stable.Conversion
