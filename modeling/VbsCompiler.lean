import VbsCompiler.Compile.PlainRenderer
import VbsCompiler.Program
import VbsCompiler.Source.Scan
import VbsCompiler.Workbench.Session
import VbsCompiler.Proofs.Inversion
import VbsCompiler.Proofs.Growth
import VbsCompiler.Proofs.Temporary
import VbsCompiler.Proofs.Execution
import VbsCompiler.Proofs.Simulation
import VbsCompiler.Proofs.EarlyExit
import VbsCompiler.Proofs.Lexical
import VbsCompiler.Proofs.Acceptance
import VbsCompiler.Proofs.Names
import VbsCompiler.Proofs.Bindings
import VbsCompiler.Proofs.Supply
import VbsCompiler.Proofs.RendererCalls
import VbsCompiler.Proofs.References
import VbsCompiler.Proofs.MethodNames
import VbsCompiler.Proofs.Registration
import VbsCompiler.Proofs.Partition
import VbsCompiler.Proofs.Lexemes
import VbsCompiler.Proofs.AtomShapes
import VbsCompiler.Proofs.Elision
import VbsCompiler.Proofs.Printing
import VbsCompiler.Proofs.Storage
import VbsCompiler.Proofs.Evolution
import VbsCompiler.Proofs.IndexedArguments
import VbsCompiler.Proofs.WriteBack
import VbsCompiler.Proofs.Allocation
import VbsCompiler.Proofs.Resizing
import VbsCompiler.Proofs.Bounds
import VbsCompiler.Proofs.DynamicArrays
import VbsCompiler.Proofs.MachineWords
import VbsCompiler.Proofs.Spelling
import VbsCompiler.Proofs.Respelling
import VbsCompiler.Proofs.Marks
import VbsCompiler.Proofs.DeclaredFirst
import VbsCompiler.Proofs.Trapping
import VbsCompiler.Proofs.Nesting
import VbsCompiler.Proofs.ExitFlags
import VbsCompiler.Proofs.Visits
import VbsCompiler.Proofs.Diagnosis
import VbsCompiler.Proofs.JsonTexts
import VbsCompiler.Proofs.GivenOptions
