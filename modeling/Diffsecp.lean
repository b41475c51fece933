import Diffsecp.Field.Magnitude
import Diffsecp.Secp.Numbers
import Diffsecp.Secp.Pratt
import Diffsecp.Secp.Primes
import Diffsecp.Secp.Reference
import Diffsecp.Field.Ideal
import Diffsecp.Scalar.Ideal
import Diffsecp.Keys.Target
import Diffsecp.Interact.Lockstep
import Diffsecp.Keys.Specified
import Diffsecp.Group.Target
import Diffsecp.Secp.Curve
import Diffsecp.Group.Ideal
import Diffsecp.Group.Refine
import Diffsecp.Group.Run
import Diffsecp.Group.Reference
import Diffsecp.Scalar.Recorded
import Diffsecp.Keys.Recorded
import Diffsecp.Group.Recorded
import Diffsecp.Recorded
import Diffsecp.Fuzz.Driver
import Diffsecp.Fuzz.Verdict
import Diffsecp.Mutants.Schemata
import Diffsecp.Fuzz.Mutants
import Diffsecp.Oracle.Line
import Diffsecp.Interact.Reach
import Diffsecp.Oracle.Protocol
import Diffsecp.Oracle.Paired
import Diffsecp.Oracle.Agreement
import Diffsecp.Common
import Diffsecp.Ecdsa.Target
import Diffsecp.Ellswift.Target
import Diffsecp.Recovery.Target
import Diffsecp.Schnorrsig.Target
import Diffsecp.Interact.Output
import Diffsecp.Length.Basic
import Diffsecp.Musig.Target
import Diffsecp.Silentpayments.Target
import Diffsecp.Length.Machines
import Diffsecp.Length.Signatures
import Diffsecp.Length.Protocols
import Diffsecp.Length
import Diffsecp.Interact.Blind
import Diffsecp.ZeroFill
import Diffsecp.Digest
import Diffsecp.Secp.Order
import Diffsecp.Schnorrsig.Forged
import Diffsecp.Musig.Cancel
import Diffsecp.Ecdsa.Constructed
import Diffsecp.Buffer
import Diffsecp.Ecdsa.Buffer
import Diffsecp.Ecdsa.Exact
import Diffsecp.Ecdsa.Parsed
import Diffsecp.Interact.History
import Diffsecp.Secp.Objects
import Diffsecp.Silentpayments.Consistent
import Diffsecp.Musig.Stages
import Diffsecp.Musig.Disciplined
import Diffsecp.Text.File
import Diffsecp.Text.Regex
import Diffsecp.Text.Splice
import Diffsecp.Mutants.Generator
import Diffsecp.Mutants.Sited
import Diffsecp.Mutants.Rewritten
import Diffsecp.Mutants.Unique
import Diffsecp.Text.Words
import Diffsecp.Mutants.Parsed
import Diffsecp.Mutants.Written
import Diffsecp.Oracle.Start
import Diffsecp.Oracle.Answer
import Diffsecp.Sha256.Compress
import Diffsecp.Gf2.Period
import Diffsecp.Oracle.Sampler
import Diffsecp.Ber.Length
import Diffsecp.Ecdsa.Built
import Diffsecp.Ecdsa.Retry
import Diffsecp.Ellswift.Inverse
import Diffsecp.Schnorrsig.Specified
import Diffsecp.Schnorrsig.Leftover
import Diffsecp.Oracle.Progress
import Diffsecp.Fuzz.Session
import Diffsecp.Replay.Program
import Diffsecp.Text.Diff
import Diffsecp.Replay.Cross
import Diffsecp.Interact.Twin
import Diffsecp.Secp.Pairing
import Diffsecp.Ecdsa.Paired
import Diffsecp.Ellswift.Paired
import Diffsecp.Fuzz.Blame
import Diffsecp.Fuzz.Selftest
import Diffsecp.Fuzz.Score
